import SqlDraft.Kind

/-! The types of expressions. A collection is the type of what is bound to a column; a scalar never
has one. Unions and variables occur in the parameters of functions and stand for the types that
an argument may have. -/

namespace SqlDraft

/-- A type variable, with the kinds it may stand for. -/
structure TypeVar where
  id : String
  bound : List Kind := Kind.all
deriving DecidableEq, Repr

/-- Variables are the same when they agree in name, have equally many bounds, and each bound of the
first is among those of the second. -/
def TypeVar.same (v w : TypeVar) : Bool :=
  v.id == w.id && v.bound.length == w.bound.length && v.bound.all w.bound.contains

inductive Ty where
  | any
  | concrete (kind : Kind)
  | collection (inner : Ty)
  | union (alternatives : List Ty)
  | var (v : TypeVar)
deriving Repr

namespace Ty

/-! ## Equality of values -/

mutual

def beq : Ty → Ty → Bool
  | any, any => true
  | concrete j, concrete k => j == k
  | collection s, collection t => beq s t
  | union ss, union ts => beqAll ss ts
  | var v, var w => v == w
  | _, _ => false

def beqAll : List Ty → List Ty → Bool
  | [], [] => true
  | s :: ss, t :: ts => beq s t && beqAll ss ts
  | _, _ => false

end

mutual

theorem beq_refl : ∀ t : Ty, beq t t = true
  | any => rfl
  | concrete k => by simp [beq]
  | collection t => by simp [beq, beq_refl t]
  | union ts => by simp [beq, beqAll_refl ts]
  | var v => by simp [beq]

theorem beqAll_refl : ∀ ts : List Ty, beqAll ts ts = true
  | [] => rfl
  | t :: ts => by simp [beqAll, beq_refl t, beqAll_refl ts]

end

mutual

theorem eq_of_beq : ∀ {s t : Ty}, beq s t = true → s = t
  | any, t, h => by cases t <;> simp_all [beq]
  | concrete k, t, h => by cases t <;> simp_all [beq]
  | collection s, t, h => by
    cases t with
    | collection t =>
      have h' : beq s t = true := by simpa [beq] using h
      rw [eq_of_beq h']
    | _ => simp [beq] at h
  | union ss, t, h => by
    cases t with
    | union ts =>
      have h' : beqAll ss ts = true := by simpa [beq] using h
      rw [eq_of_beqAll h']
    | _ => simp [beq] at h
  | var v, t, h => by cases t <;> simp_all [beq]

theorem eq_of_beqAll : ∀ {ss ts : List Ty}, beqAll ss ts = true → ss = ts
  | [], [], _ => rfl
  | [], _ :: _, h => by simp [beqAll] at h
  | _ :: _, [], h => by simp [beqAll] at h
  | s :: ss, t :: ts, h => by
    simp only [beqAll, Bool.and_eq_true] at h
    rw [eq_of_beq h.1, eq_of_beqAll h.2]

end

instance : DecidableEq Ty := fun s t =>
  decidable_of_iff (beq s t = true) ⟨eq_of_beq, fun h => h ▸ beq_refl s⟩

/-! ## Shapes -/

/-- A scalar or a column of the same data. -/
def scalarOrColumn (t : Ty) : Ty := union [t, collection t]

def isAny : Ty → Bool
  | any => true
  | _ => false

def isConcrete : Ty → Bool
  | concrete _ => true
  | _ => false

def isCollection : Ty → Bool
  | collection _ => true
  | _ => false

/-- The type below one collection, if there is one. -/
def inner : Ty → Ty
  | collection t => t
  | t => t

/-- Whether some value can have the type: neither a union nor a variable, and at most one
collection deep. -/
def isResolved : Ty → Bool
  | any | concrete _ => true
  | collection t => t.isAny || t.isConcrete
  | _ => false

/-- The type of a kind that may be unknown. -/
def ofKind? : Option Kind → Ty
  | some k => concrete k
  | none => any

@[simp] theorem inner_collection (t : Ty) : (collection t).inner = t := rfl

theorem isCollection_iff {t : Ty} : t.isCollection = true ↔ ∃ s, t = collection s := by
  cases t <;> simp [isCollection]

/-! ## Sameness: the structure agrees, with variables compared by `TypeVar.same` -/

mutual

def same : Ty → Ty → Bool
  | any, any => true
  | concrete j, concrete k => j == k
  | collection s, collection t => same s t
  | union ss, union ts => sameAll ss ts
  | var v, var w => v.same w
  | _, _ => false

def sameAll : List Ty → List Ty → Bool
  | [], [] => true
  | s :: ss, t :: ts => same s t && sameAll ss ts
  | _, _ => false

end

/-! ## Written form -/

mutual

def describe : Ty → String
  | any => "Any"
  | concrete k => k.label
  | collection t => "Collection[" ++ describe t ++ "]"
  | union ts => "Union[" ++ ", ".intercalate (describeAll ts) ++ "]"
  | var v => v.id

def describeAll : List Ty → List String
  | [] => []
  | t :: ts => describe t :: describeAll ts

end

end Ty

end SqlDraft
