/-! Replacing every occurrence of one text within another, from the left and without overlap. -/

namespace SqlDraft.Text

/-- Replaces from here on, after passing over the next `skip` characters, which belong to an
occurrence already replaced. -/
def replaceFrom (pattern replacement : List Char) : (skip : Nat) → List Char → List Char
  | _, [] => []
  | skip + 1, _ :: rest => replaceFrom pattern replacement skip rest
  | 0, c :: rest =>
    if pattern.isPrefixOf (c :: rest) then
      replacement ++ replaceFrom pattern replacement (pattern.length - 1) rest
    else c :: replaceFrom pattern replacement 0 rest

/-- The text with every occurrence replaced. The empty text occurs nowhere. -/
def replaceAll (pattern replacement s : List Char) : List Char :=
  if pattern = [] then s else replaceFrom pattern replacement 0 s

theorem replaceFrom_singleton (a : Char) (r s : List Char) :
    replaceFrom [a] r 0 s = s.flatMap fun c => if c = a then r else [c] := by
  induction s with
  | nil => rfl
  | cons c rest ih =>
    by_cases h : a = c
    · subst h
      simp [replaceFrom, ih]
    · have h' : c ≠ a := fun e => h e.symm
      have hb : (a == c) = false := by simpa using h
      simp [replaceFrom, List.isPrefixOf, hb, h', ih]

/-- Of a single character, every occurrence is replaced where it stands. -/
theorem replaceAll_singleton (a : Char) (r s : List Char) :
    replaceAll [a] r s = s.flatMap fun c => if c = a then r else [c] := by
  simp [replaceAll, replaceFrom_singleton]

end SqlDraft.Text
