import SqlDraft.Dialect.Standard
import SqlDraft.Fault
import SqlDraft.Registry

/-! Dialects by name. Registering a dialect anew replaces the one of its name. -/

namespace SqlDraft.Dialect

abbrev Registry := SqlDraft.Registry Dialect

namespace Registry

def register (r : Registry) (d : Dialect) : Registry := r.store d.name d

def ofList (l : List Dialect) : Registry := l.foldl register ∅

def get (r : Registry) (name : String) : Outcome Dialect :=
  match r.entries.get? name with
  | some d => .ok d
  | none => .error (.unknownDialect name)

/-- Registers the dialect that the changes make of a registered one, and returns it too. -/
def extend (r : Registry) (base : String) (o : Changes) : Outcome (Dialect × Registry) := do
  let d := (← r.get base).extend o
  return (d, r.register d)

/-- What whoever keeps a registry is told of a replacement. -/
def notice (name : String) : String := "[dialects] replacing dialect \"" ++ name ++ "\""

/-- The registry every program starts with. -/
def standard : Registry := ofList Dialect.standard

end Registry

end SqlDraft.Dialect
