import SqlDraft.Query.Basic

/-! Functions by their signature, and calls of them. A call is checked when it is made: its
arguments match the parameters and its result has a type that values can have. -/

namespace SqlDraft

/-- How a function tells the type of its result: by a type in which the variables bound are
replaced, or by a rule on what was matched. -/
inductive Returns where
  | fixed (t : Ty)
  | computed (rule : List Ty → Bindings → Ty)

namespace Returns

/-- The type given, whatever was matched. -/
def always (t : Ty) : Returns := .computed fun _ _ => t

/-- The type that the parameter at the index took. -/
def ofParameter (index : Nat) : Returns := .computed fun matched _ => matched.getD index .any

/-- The type that a variable is bound to, or any if it is not bound. -/
def ofVariable (id : String) : Returns :=
  .computed fun _ bindings => (bindings.get? id).elim .any Binding.type

end Returns

/-- A function or operator. A dialect looks up how to write it under its name; kinds agree strictly
unless told otherwise. -/
structure Signature where
  name : String
  params : List Ty
  returns : Returns
  agreement : Option Agreement := none

namespace Signature

def resultType (s : Signature) (m : Match) : Outcome Ty :=
  match s.returns with
  | .fixed t => t.substitute s.name m.bindings
  | .computed rule => .ok (rule m.types m.bindings)

/-- The call of a function on expressions. -/
def applyExprs (s : Signature) (args : List Expr) : Outcome Expr := do
  let m ← Match.run (s.agreement.getD .strict) s.name s.params (args.map Expr.type)
  let type ← s.resultType m
  if type.isResolved then
    return .call ⟨s.name, type, m.types, m.bindings⟩ args
  else
    throw (.definition s.name (.openReturn type.describe))

/-- The call of a function on operands. -/
def apply (s : Signature) (args : List Operand) : Outcome Expr := do
  s.applyExprs (← args.mapM (Operand.toExpr s.name))

end Signature

end SqlDraft
