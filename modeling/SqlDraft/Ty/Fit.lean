import SqlDraft.Ty.Basic

/-! How one type given meets one type expected. The alternatives of a union are tried in order and
the first that meets decides. What is given as `any` meets every expectation but a union without
alternatives. A variable also meets a column of what it stands for.

Each position makes a demand on at most one variable: the kind that was given in its place, or no
kind when that was `any`. -/

namespace SqlDraft

/-- The outcome of one position: the type it settles on, in which a variable may remain, and the
variable it makes a demand on, together with the kind given for it. -/
structure Fit where
  type : Ty
  demand : Option (TypeVar × Option Kind) := none
deriving DecidableEq

namespace Ty

mutual

/-- The variable that a given `any` makes a demand on: the one in the first alternatives. -/
def leadVar? : Ty → Option TypeVar
  | var v => some v
  | collection t => leadVar? t
  | union ts => leadVarAll? ts
  | any | concrete _ => none

def leadVarAll? : List Ty → Option TypeVar
  | [] => none
  | t :: _ => leadVar? t

end

/-- What a given `any` settles on. -/
def fitOfAny (expected : Ty) : Fit where
  type := expected
  demand := expected.leadVar?.map fun v => (v, none)

/-- A scalar given for a variable, when the variable may stand for it. -/
def demandFor? (g : Agreement) (v : TypeVar) : Ty → Option (TypeVar × Option Kind)
  | any => some (v, none)
  | concrete k => if v.bound.any fun j => g.Allows j k then some (v, some k) else none
  | _ => none

/-- A variable meets a scalar it may stand for, or a collection of one. -/
def fitVar? (g : Agreement) (v : TypeVar) : Ty → Option Fit
  | collection t => (demandFor? g v t).map fun d => ⟨collection (var v), some d⟩
  | t => (demandFor? g v t).map fun d => ⟨var v, some d⟩

def fitKind? (g : Agreement) (j : Kind) : Ty → Option Fit
  | any => some ⟨concrete j, none⟩
  | concrete k => if g.Allows j k then some ⟨concrete j, none⟩ else none
  | _ => none

mutual

/-- How the type given meets this expectation, if it does. -/
def fit? (g : Agreement) : (expected : Ty) → (given : Ty) → Option Fit
  | any, t => some ⟨t, none⟩
  | union es, t => fitFirst? g es t
  | var v, t => fitVar? g v t
  | concrete j, t => fitKind? g j t
  | collection e, t =>
    match t with
    | any => some (fitOfAny (collection e))
    | collection s => (fit? g e s).map fun f => { f with type := collection f.type }
    | _ => none

/-- The first of the alternatives that the type given meets. -/
def fitFirst? (g : Agreement) : (alternatives : List Ty) → (given : Ty) → Option Fit
  | [], _ => none
  | e :: es, t => (fit? g e t).or (fitFirst? g es t)

end

end Ty

end SqlDraft
