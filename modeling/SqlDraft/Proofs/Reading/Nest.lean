import SqlDraft.Proofs.Reading.Scan

/-! A text by its parentheses. Within each pair of them lie pieces, which have no gap in them, and
what stands between pieces. A text is nested from its end: a closing parenthesis opens what lies in
front of it, and an opening one closes that again. Names and string literals are passed over whole,
so that parentheses in them count for nothing.

A text that closes what it opens, and nothing else, changes nothing of how what surrounds it is
nested (`Lies`), and nothing of it is lost (`text_before`). -/

namespace SqlDraft.Reading

inductive Nest where
  | nil
  | piece (text : List Char) (rest : Nest)
  | space (rest : Nest)
  | comma (rest : Nest)
  | group (inside rest : Nest)
deriving DecidableEq

namespace Nest

def text : Nest → List Char
  | nil => []
  | piece t n => t ++ n.text
  | space n => ' ' :: n.text
  | comma n => ',' :: n.text
  | group i n => '(' :: i.text ++ ')' :: n.text

/-- The piece at the beginning, if there is one. -/
def lead : Nest → List Char
  | piece t _ => t
  | _ => []

/-- No piece is at the beginning. -/
def Parted : Nest → Prop
  | piece _ _ => False
  | _ => True

/-- The text in front of the rest. It makes one piece with what follows it without a gap. -/
def glue (t : List Char) : Nest → Nest
  | piece u n => piece (t ++ u) n
  | n => piece t n

theorem glue_of_parted {n : Nest} (h : n.Parted) (t : List Char) : glue t n = piece t n := by
  cases n with
  | piece u n => exact h.elim
  | _ => rfl

theorem glue_glue (t u : List Char) (n : Nest) : glue t (glue u n) = glue (t ++ u) n := by
  cases n <;> simp [glue]

theorem text_glue (t : List Char) (n : Nest) : (glue t n).text = t ++ n.text := by
  cases n <;> simp [glue, text]

end Nest

open Nest

/-- Puts a lexeme in front of what is nested so far: the innermost level first, and behind it those
that are still to be closed. -/
def onto (l : Lexeme) : List Nest → List Nest
  | [] => []
  | n :: st =>
    if l = .char ' ' then space n :: st
    else if l = .char ',' then comma n :: st
    else if l = .char ')' then nil :: n :: st
    else if l = .char '(' then
      match st with
      | [] => []
      | m :: st => group n m :: st
    else glue l.text n :: st

def nestOnto (ls : List Lexeme) (st : List Nest) : List Nest := ls.foldr onto st

/-- A text by its parentheses, if each of them has its counterpart. -/
def nest? (ls : List Lexeme) : Option Nest :=
  match nestOnto ls [nil] with
  | [n] => some n
  | _ => none

/-- What the lexemes make in front of a rest. -/
def before (ls : List Lexeme) (rest : Nest) : Nest := (nestOnto ls [rest]).headD nil

theorem onto_cons (l : Lexeme) (n : Nest) (st : List Nest) :
    onto l (n :: st) =
      if l = .char ' ' then space n :: st
      else if l = .char ',' then comma n :: st
      else if l = .char ')' then nil :: n :: st
      else if l = .char '(' then
        match st with
        | [] => []
        | m :: st => group n m :: st
      else glue l.text n :: st := rfl

/-- What is put in front of a level by a lexeme that is no parenthesis. -/
inductive Put (l : Lexeme) : (Nest → Nest) → Prop
  | space (h : l = .char ' ') : Put l space
  | comma (h : l = .char ',') : Put l comma
  | glue : Put l (glue l.text)

/-- A lexeme begins a level, or ends the innermost one, or is put in front of that. -/
theorem onto_cases (l : Lexeme) : l = .char ')' ∨ l = .char '(' ∨
    ∃ put, Put l put ∧ ∀ n st, onto l (n :: st) = put n :: st := by
  by_cases hclose : l = .char ')'
  · exact .inl hclose
  by_cases hopen : l = .char '('
  · exact .inr (.inl hopen)
  by_cases hspace : l = .char ' '
  · exact .inr (.inr ⟨space, .space hspace, fun n st => by rw [onto_cons, if_pos hspace]⟩)
  by_cases hcomma : l = .char ','
  · exact .inr (.inr ⟨comma, .comma hcomma,
      fun n st => by rw [onto_cons, if_neg hspace, if_pos hcomma]⟩)
  · refine .inr (.inr ⟨glue l.text, .glue, fun n st => ?_⟩)
    rw [onto_cons, if_neg hspace, if_neg hcomma, if_neg hclose, if_neg hopen]

theorem Put.text {l : Lexeme} {put : Nest → Nest} (h : Put l put) (n : Nest) :
    (put n).text = l.text ++ n.text := by
  cases h with
  | space h => rw [h]; rfl
  | comma h => rw [h]; rfl
  | glue => exact text_glue _ _

/-- The lexemes close what they open, and nothing else. -/
def Lies (ls : List Lexeme) : Prop := ∀ n st, nestOnto ls (n :: st) = before ls n :: st

theorem nestOnto_append (xs ys : List Lexeme) (st : List Nest) :
    nestOnto (xs ++ ys) st = nestOnto xs (nestOnto ys st) := List.foldr_append

theorem nestOnto_cons (l : Lexeme) (ls : List Lexeme) (st : List Nest) :
    nestOnto (l :: ls) st = onto l (nestOnto ls st) := rfl

theorem nestOnto_nil (ls : List Lexeme) : nestOnto ls [] = [] := by
  induction ls with
  | nil => rfl
  | cons l ls ih => rw [nestOnto_cons, ih]; rfl

theorem lies_of_eq {ls : List Lexeme} {put : Nest → Nest}
    (h : ∀ n st, nestOnto ls (n :: st) = put n :: st) : Lies ls ∧ ∀ n, before ls n = put n := by
  have hb (n : Nest) : before ls n = put n := by rw [before, h]; rfl
  exact ⟨fun n st => by rw [h, hb], hb⟩

theorem Lies.nest? {ls : List Lexeme} (h : Lies ls) : nest? ls = some (before ls nil) := by
  rw [Reading.nest?, h]

theorem lies_nil : Lies [] := fun _ _ => rfl

theorem nestOnto_both {xs ys : List Lexeme} (hx : Lies xs) (hy : Lies ys) (n : Nest)
    (st : List Nest) : nestOnto (xs ++ ys) (n :: st) = before xs (before ys n) :: st := by
  rw [nestOnto_append, hy, hx]

theorem Lies.append {xs ys : List Lexeme} (hx : Lies xs) (hy : Lies ys) : Lies (xs ++ ys) :=
  (lies_of_eq (nestOnto_both hx hy)).1

theorem before_append {xs ys : List Lexeme} (hx : Lies xs) (hy : Lies ys) (n : Nest) :
    before (xs ++ ys) n = before xs (before ys n) := (lies_of_eq (nestOnto_both hx hy)).2 n

theorem nestOnto_enclosed {ls : List Lexeme} (h : Lies ls) (n : Nest) (st : List Nest) :
    nestOnto (.char '(' :: ls ++ [.char ')']) (n :: st) = group (before ls nil) n :: st := by
  rw [nestOnto_append]
  show onto (.char '(') (nestOnto ls (nil :: n :: st)) = _
  rw [h]
  rfl

theorem Lies.enclosed {ls : List Lexeme} (h : Lies ls) :
    Lies (.char '(' :: ls ++ [.char ')']) := (lies_of_eq (nestOnto_enclosed h)).1

theorem before_enclosed {ls : List Lexeme} (h : Lies ls) (n : Nest) :
    before (.char '(' :: ls ++ [.char ')']) n = group (before ls nil) n :=
  (lies_of_eq (nestOnto_enclosed h)).2 n

/-! ## Nothing is lost -/

/-- What is nested so far, with the parentheses that are still to be closed. -/
def stackText (st : List Nest) : List Char := st.flatMap fun n => n.text ++ [')']

theorem stackText_cons (n : Nest) (st : List Nest) :
    stackText (n :: st) = n.text ++ ')' :: stackText st := by
  simp [stackText]

theorem stackText_onto {l : Lexeme} {st : List Nest} (h : onto l st ≠ []) :
    stackText (onto l st) = l.text ++ stackText st := by
  cases st with
  | nil => exact absurd rfl h
  | cons n st =>
    rcases onto_cases l with rfl | rfl | ⟨put, hput, honto⟩
    · rfl
    · cases st with
      | nil => exact absurd rfl h
      | cons m st =>
        change stackText (group n m :: st) = _
        simp [stackText_cons, Nest.text, Lexeme.text]
    · rw [honto, stackText_cons, stackText_cons, hput.text, List.append_assoc]

theorem stackText_nestOnto {ls : List Lexeme} {st : List Nest} (h : nestOnto ls st ≠ []) :
    stackText (nestOnto ls st) = ls.flatMap Lexeme.text ++ stackText st := by
  induction ls with
  | nil => rfl
  | cons l ls ih =>
    rw [nestOnto_cons] at h ⊢
    have hls : nestOnto ls st ≠ [] := fun hn => h (by rw [hn]; rfl)
    rw [stackText_onto h, ih hls, List.flatMap_cons, List.append_assoc]

theorem text_before {ls : List Lexeme} (h : Lies ls) (n : Nest) :
    (before ls n).text = ls.flatMap Lexeme.text ++ n.text := by
  have hst := h n []
  have ht := stackText_nestOnto (hst ▸ List.cons_ne_nil _ _)
  rw [hst] at ht
  simpa [stackText, ← List.append_assoc] using ht

/-! ## Characters -/

/-- Levels further out do not matter as long as none of them is closed. -/
theorem onto_append {l : Lexeme} {st : List Nest} (h : onto l st ≠ []) (rest : List Nest) :
    onto l (st ++ rest) = onto l st ++ rest := by
  cases st with
  | nil => exact absurd rfl h
  | cons n st =>
    rcases onto_cases l with rfl | rfl | ⟨put, -, honto⟩
    · rfl
    · cases st with
      | nil => exact absurd rfl h
      | cons m st => rfl
    · rw [List.cons_append, honto, honto, List.cons_append]

theorem nestOnto_append_stack {ls : List Lexeme} {st : List Nest} (h : nestOnto ls st ≠ [])
    (rest : List Nest) : nestOnto ls (st ++ rest) = nestOnto ls st ++ rest := by
  induction ls with
  | nil => rfl
  | cons l ls ih =>
    rw [nestOnto_cons] at h
    have hls : nestOnto ls st ≠ [] := fun hn => h (by rw [hn]; rfl)
    rw [nestOnto_cons, ih hls, onto_append h]
    rfl

theorem lies_of_length {ls : List Lexeme} (h : ∀ n, (nestOnto ls [n]).length = 1) : Lies ls := by
  intro n st
  obtain ⟨m, hm⟩ := List.length_eq_one_iff.mp (h n)
  have hst := nestOnto_append_stack (hm ▸ List.cons_ne_nil _ _) st
  rw [before, hm]
  rwa [hm] at hst

/-- How many parentheses the characters leave to be opened in front of them, if each that they open
is closed behind it. -/
def unopened : List Char → Option Nat
  | [] => some 0
  | c :: s =>
    if c = ')' then (unopened s).map (· + 1)
    else if c = '(' then (unopened s).bind fun k => if k = 0 then none else some (k - 1)
    else unopened s

theorem length_onto_close {st : List Nest} (h : st ≠ []) :
    (onto (.char ')') st).length = st.length + 1 := by
  cases st with
  | nil => exact absurd rfl h
  | cons n st => rfl

theorem length_onto_open {st : List Nest} {k : Nat} (h : st.length = k + 2) :
    (onto (.char '(') st).length = k + 1 := by
  match st, h with
  | _ :: _ :: _, h => exact Nat.succ.inj h

theorem length_onto {l : Lexeme} (hclose : l ≠ .char ')') (hopen : l ≠ .char '(') (st : List Nest) :
    (onto l st).length = st.length := by
  cases st with
  | nil => rfl
  | cons n st =>
    rcases onto_cases l with rfl | rfl | ⟨put, -, honto⟩
    · exact absurd rfl hclose
    · exact absurd rfl hopen
    · rw [honto, List.length_cons, List.length_cons]

theorem length_nestOnto_chars (n : Nest) (s : List Char) : ∀ {k : Nat}, unopened s = some k →
    (nestOnto (s.map .char) [n]).length = k + 1 := by
  induction s with
  | nil =>
    intro k h
    cases h
    rfl
  | cons c s ih =>
    intro k h
    rw [List.map_cons, nestOnto_cons]
    rw [unopened] at h
    split at h
    · next hc =>
      obtain ⟨j, hj, rfl⟩ := Option.map_eq_some_iff.mp h
      have hlength := ih hj
      rw [hc, length_onto_close (List.ne_nil_of_length_eq_add_one hlength), hlength]
    split at h
    · next hc =>
      obtain ⟨j, hj, h⟩ := Option.bind_eq_some_iff.mp h
      have hlength := ih hj
      split at h
      · cases h
      · cases h
        rw [hc, length_onto_open (k := j - 1) (by omega)]
    · next hclose hopen =>
      rw [length_onto (by simpa using hclose) (by simpa using hopen), ih h]

theorem lies_chars {s : List Char} (h : unopened s = some 0) : Lies (s.map .char) :=
  lies_of_length fun n => length_nestOnto_chars n s h

theorem unopened_of_forall {s : List Char} (h : ∀ c ∈ s, c ≠ '(' ∧ c ≠ ')') :
    unopened s = some 0 := by
  induction s with
  | nil => rfl
  | cons c s ih =>
    obtain ⟨hc, hs⟩ := List.forall_mem_cons.mp h
    rw [unopened, if_neg hc.2, if_neg hc.1, ih hs]

/-- Characters without a gap make a piece. -/
def isSolid (c : Char) : Bool := !([' ', ',', '(', ')'].contains c)

theorem nestOnto_solid {s : List Char} (hs : s ≠ []) (h : ∀ c ∈ s, isSolid c = true) (n : Nest)
    (st : List Nest) : nestOnto (s.map .char) (n :: st) = glue s n :: st := by
  have step {c : Char} (hc : isSolid c = true) (m : Nest) :
      onto (.char c) (m :: st) = glue [c] m :: st := by
    have hne : c ≠ ' ' ∧ c ≠ ',' ∧ c ≠ '(' ∧ c ≠ ')' := by
      simpa [isSolid] using hc
    simp [onto_cons, hne, Lexeme.text]
  induction s with
  | nil => exact absurd rfl hs
  | cons c s ih =>
    obtain ⟨hc, hs'⟩ := List.forall_mem_cons.mp h
    rw [List.map_cons, nestOnto_cons]
    cases s with
    | nil => exact step hc n
    | cons d s =>
      rw [ih (List.cons_ne_nil _ _) hs', step hc, glue_glue]
      rfl

end SqlDraft.Reading
