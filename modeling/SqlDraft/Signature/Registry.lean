import SqlDraft.Registry
import SqlDraft.Signature.Builtin

/-! Functions by name. A name is registered once, unless its replacement is asked for. -/

namespace SqlDraft.Signature

abbrev Registry := SqlDraft.Registry Signature

namespace Registry

def register (r : Registry) (s : Signature) (replace : Bool := false) : Outcome Registry :=
  if s.name ∈ r.entries ∧ replace = false then
    .error (.definition s.name .registeredTwice)
  else .ok (r.store s.name s)

def ofList (l : List Signature) : Outcome Registry :=
  l.foldlM (fun r s => register r s) ∅

def get (r : Registry) (name : String) : Outcome Signature :=
  match r.entries.get? name with
  | some s => .ok s
  | none => .error (.unknownFunction name)

/-- What whoever keeps a registry is told of a replacement. -/
def notice (name : String) : String := "[functions] replacing signature \"" ++ name ++ "\""

/-- The registry every program starts with. -/
def standard : Registry :=
  (Builtin.standard.map Builtin.signature).foldl (fun r s => r.store s.name s) ∅

end Registry

end SqlDraft.Signature
