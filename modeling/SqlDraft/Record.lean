import SqlDraft.Catalog

/-! Records as they are written down: fields in any order, some perhaps given twice. A field given
again keeps its place and takes the later content. Fields named by a number come first, in order
of their numbers. -/

namespace SqlDraft.Record

/-- The greatest number that gives a field its place. -/
def greatestIndex : Nat := 4294967294

/-- The number that a name is, when it is written without needless zeros and is not too great. -/
def index? (name : String) : Option Nat :=
  let digits := name.toList
  if digits.isEmpty || !digits.all Char.isDigit || (digits.length > 1 && digits.head? == some '0')
  then none
  else
    let n := Nat.ofDigitChars 10 digits 0
    if n ≤ greatestIndex then some n else none

variable {α : Type}

/-- Puts a field before the first with a greater number. -/
def place (n : Nat) (e : String × α) : List (Nat × String × α) → List (Nat × String × α)
  | [] => [(n, e)]
  | (m, d) :: rest => if n ≤ m then (n, e) :: (m, d) :: rest else (m, d) :: place n e rest

/-- The fields named by numbers, in order of these. -/
def numbered (l : List (String × α)) : List (Nat × String × α) :=
  l.foldr (fun e placed => (index? e.1).elim placed fun n => place n e placed) []

def arranged (l : List (String × α)) : List (String × α) :=
  (numbered l).map Prod.snd ++ l.filter fun e => (index? e.1).isNone

theorem place_perm (n : Nat) (e : String × α) (l : List (Nat × String × α)) :
    ((place n e l).map Prod.snd).Perm (e :: l.map Prod.snd) := by
  induction l with
  | nil => exact .refl _
  | cons d rest ih =>
    obtain ⟨m, d⟩ := d
    simp only [place]
    split
    · exact .refl _
    · exact (ih.cons d).trans (.swap e d _)

/-- Arranging moves fields and neither loses nor makes any. -/
theorem arranged_perm (l : List (String × α)) : (arranged l).Perm l := by
  induction l with
  | nil => exact .refl _
  | cons e rest ih =>
    simp only [arranged, numbered, List.foldr_cons]
    cases h : index? e.1 with
    | none =>
      simp only [Option.elim, List.filter_cons, h, Option.isNone_none, if_true]
      exact List.perm_middle.trans (ih.cons e)
    | some n =>
      simp only [Option.elim, List.filter_cons, h, Option.isNone_some, Bool.false_eq_true, if_false]
      exact ((place_perm n e _).append_right _).trans (ih.cons e)

/-- The record of the fields given. -/
def ofFields (l : List (String × α)) : Catalog α where
  entries := arranged (Catalog.ofList l).entries
  nodup := ((arranged_perm _).map _).nodup_iff.mpr (Catalog.ofList l).nodup

end SqlDraft.Record
