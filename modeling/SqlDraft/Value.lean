import SqlDraft.Fault
import SqlDraft.Instant
import SqlDraft.Ty.Basic

/-! The values a query may hold as literals, and the types they have on their own. -/

namespace SqlDraft

/-- A literal value. A date without an instant is one that no calendar has. -/
inductive Value where
  | null
  | truth (holds : Bool)
  | number (x : Float)
  | text (chars : String)
  | date (instant : Option Instant)

namespace Value

/-- The kind of a value; `null` has none. -/
def kind? : Value → Option Kind
  | null => none
  | truth _ => some .boolean
  | number _ => some .number
  | text _ => some .string
  | date _ => some .datetime

def type (v : Value) : Ty := .ofKind? v.kind?

/-- The kind shared by all values but the nulls, given the kind of those before. -/
def commonKind (method : String) : (before : Option Kind) → List Value → Outcome (Option Kind)
  | before, [] => .ok before
  | before, v :: rest =>
    match v.kind? with
    | none => commonKind method before rest
    | some k =>
      match before with
      | none => commonKind method (some k) rest
      | some j =>
        if j = k then commonKind method (some k) rest
        else .error (.argument method (.mixedList j.label k.label))

/-- The type of a list of values: a collection of the kind they share, or of `any` if all are
null. -/
def listType (method : String) (values : List Value) : Outcome Ty :=
  if values.isEmpty then .error (.argument method .emptyList)
  else (commonKind method none values).map fun k => .collection (.ofKind? k)

end Value

end SqlDraft
