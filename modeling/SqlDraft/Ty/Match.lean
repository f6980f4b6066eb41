import SqlDraft.Catalog
import SqlDraft.Fault
import SqlDraft.Ty.Fit

/-! Matching the types given to a function against its parameters. The positions are met one by
one; the demands on each variable are then reconciled, so that a disagreement names every position
that takes part; last, the variables are replaced by what they are bound to. -/

namespace SqlDraft

/-- What a variable stands for, and the positions that made a demand on it. -/
structure Binding where
  indices : List Nat
  type : Ty
deriving DecidableEq

/-- The variables bound by a match, in order of their first demand. -/
abbrev Bindings := Catalog Binding

/-- One position's demand on a variable. -/
structure Demand where
  id : String
  index : Nat
  kind : Option Kind
deriving DecidableEq

/-- A successful match: the type that each position settled on, and the variables bound. -/
structure Match where
  types : List Ty
  bindings : Bindings
deriving DecidableEq

/-- The type with its variables replaced. A variable without binding, or a union, faults the
definition of the function. -/
def Ty.substitute (function : String) (bindings : Bindings) : Ty → Outcome Ty
  | .any => .ok .any
  | .concrete k => .ok (.concrete k)
  | .collection t => (t.substitute function bindings).map .collection
  | .var v =>
    match bindings.get? v.id with
    | some b => .ok b.type
    | none => .error (.definition function (.unboundVariable v.id))
  | .union ts => .error (.definition function (.openUnion (Ty.union ts).describe))

namespace Match

/-- Meets each position in turn, from position `i` on, and stops at the first that fails. -/
def fits (g : Agreement) (function : String) : (i : Nat) → List (Ty × Ty) → Outcome (List Fit)
  | _, [] => .ok []
  | i, (expected, given) :: rest =>
    match expected.fit? g given with
    | none => .error (.mismatch function (.count i) expected.describe given.describe)
    | some f => (fits g function (i + 1) rest).map (f :: ·)

/-- The demands of the positions, in order. -/
def demands : (i : Nat) → List Fit → List Demand
  | _, [] => []
  | i, f :: rest =>
    match f.demand with
    | some (v, kind) => ⟨v.id, i, kind⟩ :: demands (i + 1) rest
    | none => demands (i + 1) rest

/-- What the demands on one variable bind it to: the first kind given, which every other kind given
has to agree with, or `any` if none was given. -/
def reconcile (g : Agreement) (function id : String) (group : List Demand) : Outcome Binding :=
  let typed := group.filter fun d => d.kind.isSome
  let kinds := typed.filterMap Demand.kind
  if kinds.all fun k => kinds.head?.all fun first => g.Allows k first then
    .ok ⟨group.map Demand.index, .ofKind? kinds.head?⟩
  else
    .error (.conflict function id (kinds.map Kind.label) (typed.map fun d => .count d.index))

/-- Binds the variables under the given identifiers, in order. -/
def bind (g : Agreement) (function : String) (ds : List Demand) :
    (ids : List String) → Bindings → Outcome Bindings
  | [], bound => .ok bound
  | id :: ids, bound => do
    let b ← reconcile g function id (ds.filter fun d => d.id = id)
    bind g function ds ids (bound.insert id b)

/-- Replaces the variables in each type. -/
def substituteAll (function : String) (bindings : Bindings) : List Ty → Outcome (List Ty)
  | [] => .ok []
  | t :: ts => do
    let s ← t.substitute function bindings
    return s :: (← substituteAll function bindings ts)

/-- Matches the types given to a function against the types it expects. -/
def run (g : Agreement) (function : String) (expected given : List Ty) : Outcome Match := do
  if expected.length ≠ given.length then
    throw (.arity function (.count expected.length) (.count given.length))
  let fs ← fits g function 0 (expected.zip given)
  let ds := demands 0 fs
  let bindings ← bind g function ds (ds.map Demand.id).eraseDups ∅
  return ⟨← substituteAll function bindings (fs.map Fit.type), bindings⟩

end Match

end SqlDraft
