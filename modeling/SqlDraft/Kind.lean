/-! The kinds of data a scalar holds, and tables of kinds that may stand in for one another. A
table is given by a list of pairs and read in both directions; every kind stands in for itself. -/

namespace SqlDraft

/-- What a scalar holds. -/
inductive Kind where
  | boolean | number | string | date | time | datetime
deriving DecidableEq, Repr

namespace Kind

def all : List Kind := [boolean, number, string, date, time, datetime]

theorem mem_all (k : Kind) : k ∈ all := by cases k <;> decide

/-- The word for a kind in schemas and bounds. -/
def name : Kind → String
  | boolean => "boolean"
  | number => "number"
  | string => "string"
  | date => "date"
  | time => "time"
  | datetime => "datetime"

/-- The word for a kind in messages. -/
def label : Kind → String
  | boolean => "Boolean"
  | number => "Number"
  | string => "String"
  | date => "Date"
  | time => "Time"
  | datetime => "DateTime"

def ofName? (s : String) : Option Kind := all.find? fun k => k.name == s

end Kind

/-- The kinds that name a day, a time of day, or both. -/
inductive Temporal where
  | date | time | datetime
deriving DecidableEq, Repr

namespace Temporal

def kind : Temporal → Kind
  | date => .date
  | time => .time
  | datetime => .datetime

def name (t : Temporal) : String := t.kind.name

end Temporal

def Kind.temporal? : Kind → Option Temporal
  | .date => some .date
  | .time => some .time
  | .datetime => some .datetime
  | _ => none

/-- Which kinds may stand in for one another, beyond each for itself. -/
structure Agreement where
  pairs : List (Kind × Kind)
deriving DecidableEq, Repr

namespace Agreement

/-- Every kind stands in for itself alone. -/
def strict : Agreement := ⟨[]⟩

/-- One of two kinds may stand in for the other. -/
def Allows (g : Agreement) (j k : Kind) : Prop := j = k ∨ (j, k) ∈ g.pairs ∨ (k, j) ∈ g.pairs

instance (g : Agreement) (j k : Kind) : Decidable (g.Allows j k) :=
  inferInstanceAs (Decidable (_ ∨ _ ∨ _))

theorem allows_refl (g : Agreement) (k : Kind) : g.Allows k k := .inl rfl

theorem Allows.symm {g : Agreement} {j k : Kind} (h : g.Allows j k) : g.Allows k j := by
  rcases h with h | h | h
  · exact .inl h.symm
  · exact .inr (.inr h)
  · exact .inr (.inl h)

theorem allows_strict_iff {j k : Kind} : strict.Allows j k ↔ j = k := by
  simp [Allows, strict]

end Agreement

end SqlDraft
