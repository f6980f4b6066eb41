import SqlDraft.Proofs.Dialect.Spelling

/-! The string literal that a text begins with, read character by character. A quote may close the
literal or, with one more behind it, stand for itself; where there are escapes, a backslash changes
what follows. Of the escapes only that of the backslash itself is fixed, as the others never come of
a string that is written: whatever they stand for, and however long they are, a written string is
read to its end and gives the string (`Flavor.readLiteral_string_iff`). -/

namespace SqlDraft.Reading

/-- What a backslash and the character behind it stand for, given the text behind both, and how many
characters of that text belong to the escape as well. -/
structure Escapes where
  read : Char → List Char → Nat × List Char
  backslash : ∀ rest, read '\\' rest = (0, ['\\'])

/-- Letters that stand for the end of a line and the like; any other character stands for itself. -/
def Escapes.letters : Escapes where
  read
    | 'n', _ => (0, ['\n'])
    | 'r', _ => (0, ['\r'])
    | 't', _ => (0, ['\t'])
    | c, _ => (0, [c])
  backslash _ := rfl

/-- Where a reader stands: within the literal, with so many characters to pass over; behind a quote
that may have been the last; or behind a backslash. -/
inductive LiteralState where
  | inside (skip : Nat)
  | quote
  | escape

/-- What a literal says from here on, and what stands behind it. -/
def scanLiteral (escapes : Option Escapes) : LiteralState → List Char →
    Option (List Char × List Char)
  | .inside _, [] => none
  | .inside (skip + 1), _ :: rest => scanLiteral escapes (.inside skip) rest
  | .inside 0, c :: rest =>
    if c = '\'' then scanLiteral escapes .quote rest
    else if c = '\\' ∧ escapes.isSome then scanLiteral escapes .escape rest
    else (scanLiteral escapes (.inside 0) rest).map fun r => (c :: r.1, r.2)
  | .quote, [] => some ([], [])
  | .quote, c :: rest =>
    if c = '\'' then (scanLiteral escapes (.inside 0) rest).map fun r => ('\'' :: r.1, r.2)
    else some ([], c :: rest)
  | .escape, [] => none
  | .escape, c :: rest =>
    match escapes with
    | none => none
    | some e =>
      (scanLiteral (some e) (.inside (e.read c rest).1) rest).map fun r =>
        ((e.read c rest).2 ++ r.1, r.2)

/-- The string that the literal at the beginning of a text says, and what stands behind the
literal. -/
def readLiteral (x : Lexis) (e : Escapes) : List Char → Option (List Char × List Char)
  | '\'' :: rest => scanLiteral (x.escape.map fun _ => e) (.inside 0) rest
  | 'E' :: '\'' :: rest => x.markedEscape.bind fun _ => scanLiteral (some e) (.inside 0) rest
  | _ => none

variable {escapes : Option Escapes}

theorem scanLiteral_quote (t : List Char) :
    scanLiteral escapes .quote t =
      if t.head? = some '\'' then
        (scanLiteral escapes (.inside 0) t.tail).map fun r => ('\'' :: r.1, r.2)
      else some ([], t) := by
  cases t with
  | nil => rfl
  | cons c t => simp [scanLiteral]

/-- A character is read as it was written. -/
theorem scanLiteral_unit (c : Char) (rest : List Char) :
    scanLiteral escapes (.inside 0) (unit '\'' (escapes.map fun _ => '\\') c ++ rest) =
      (scanLiteral escapes (.inside 0) rest).map fun r => (c :: r.1, r.2) := by
  by_cases hquote : c = '\''
  · subst hquote
    simp [unit, scanLiteral]
  by_cases hescape : c = '\\' ∧ escapes.isSome
  · obtain ⟨rfl, hsome⟩ := hescape
    obtain ⟨e, rfl⟩ := Option.isSome_iff_exists.mp hsome
    simp [unit, scanLiteral, e.backslash]
  · have hplain : unit '\'' (escapes.map fun _ => '\\') c = [c] := by
      refine if_neg ?_
      rintro (h | h)
      · exact hquote h
      · obtain ⟨e, he, hc⟩ := Option.map_eq_some_iff.mp h
        exact hescape ⟨hc.symm, he ▸ rfl⟩
    rw [hplain, List.singleton_append, scanLiteral, if_neg hquote, if_neg hescape]

/-- A string that is closed is read up to the quote that closes it. -/
theorem scanLiteral_closed (s t : List Char) :
    scanLiteral escapes (.inside 0) (closed '\'' (escapes.map fun _ => '\\') s ++ t) =
      (scanLiteral escapes .quote t).map fun r => (s ++ r.1, r.2) := by
  induction s with
  | nil => simp [closed, scanLiteral]
  | cons c s ih =>
    have hcons : closed '\'' (escapes.map fun _ => '\\') (c :: s) ++ t =
        unit '\'' (escapes.map fun _ => '\\') c ++
          (closed '\'' (escapes.map fun _ => '\\') s ++ t) := by
      simp [closed]
    rw [hcons, scanLiteral_unit, ih, Option.map_map]
    rfl

/-- So reading ends there just when no other quote follows. -/
theorem scanLiteral_closed_iff (s t : List Char) :
    scanLiteral escapes (.inside 0) (closed '\'' (escapes.map fun _ => '\\') s ++ t) = some (s, t) ↔
      t.head? ≠ some '\'' := by
  rw [scanLiteral_closed, scanLiteral_quote]
  by_cases h : t.head? = some '\''
  · rw [if_pos h]
    simp [h]
  · simp [h]

end SqlDraft.Reading

namespace SqlDraft.Flavor

open Reading

theorem escape_eq (f : Flavor) (e : Escapes) :
    (f.lexis.escape.map fun _ => e).map (fun _ => '\\') = f.lexis.escape := by
  cases f <;> rfl

theorem markedEscape_eq (f : Flavor) (h : f.lexis.markedEscape.isSome = true) :
    f.lexis.markedEscape = some '\\' := by
  cases f <;> first | rfl | cases h

/-- A string that a dialect writes as a literal is read from the first character of the literal to
the last and no further, and it is the string, whatever the dialect's other escapes are: this is so
in front of every text but one that begins with a quote, which would go on with the literal. -/
theorem readLiteral_string_iff (f : Flavor) (e : Escapes) (s : String) (t : List Char) :
    readLiteral f.lexis e ((f.dialect.literals.string s).toList ++ t) = some (s.toList, t) ↔
      t.head? ≠ some '\'' := by
  rw [literals_string, Lexis.literal]
  split
  · next h =>
    have hmark := f.markedEscape_eq h.1
    rw [hmark, List.cons_append, List.cons_append, readLiteral, hmark]
    exact @scanLiteral_closed_iff (some e) s.toList t
  · have hclosed := @scanLiteral_closed_iff (f.lexis.escape.map fun _ => e) s.toList t
    rw [f.escape_eq e] at hclosed
    exact hclosed

/-- A backslash in front of a letter is not read as an escape, and what follows the literal stays
behind it. -/
example : readLiteral Flavor.mysql.lexis .letters ("'a\\\\n''b' or c".toList) =
    some ("a\\n'b".toList, " or c".toList) := by
  decide

end SqlDraft.Flavor
