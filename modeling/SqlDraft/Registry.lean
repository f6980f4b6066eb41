import SqlDraft.Catalog

/-! Definitions registered under their names. A registry remembers which names were registered
anew, once for each time, so that whoever keeps it can be told. -/

namespace SqlDraft

structure Registry (α : Type) where
  entries : Catalog α
  replaced : List String := []

namespace Registry

variable {α : Type}

def empty : Registry α := ⟨∅, []⟩

instance : EmptyCollection (Registry α) := ⟨empty⟩

instance : Inhabited (Registry α) := ⟨empty⟩

def names (r : Registry α) : List String := r.entries.names

/-- Stores a definition; a name already there keeps its place and is recorded as replaced. -/
def store (r : Registry α) (name : String) (a : α) : Registry α where
  entries := r.entries.insert name a
  replaced := if name ∈ r.entries then r.replaced ++ [name] else r.replaced

theorem get?_store (r : Registry α) (n m : String) (a : α) :
    (r.store n a).entries.get? m = if m = n then some a else r.entries.get? m :=
  Catalog.get?_insert ..

theorem names_store (r : Registry α) (n : String) (a : α) :
    (r.store n a).names = if n ∈ r.entries then r.names else r.names ++ [n] :=
  Catalog.names_insert ..

end Registry

end SqlDraft
