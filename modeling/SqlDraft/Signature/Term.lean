import SqlDraft.Signature.Registry

/-! Expressions before they are checked: columns by name, operands at hand, and calls of functions,
given or by name. Evaluating a term evaluates its parts from left to right and stops at the first
fault. -/

namespace SqlDraft

/-- A column, by its name in a table or given outright. -/
inductive ColumnTerm where
  | named (t : Table) (name : String)
  | given (c : Column)

def ColumnTerm.eval : ColumnTerm → Outcome Column
  | named t name => t.column name
  | given c => .ok c

inductive Term where
  | operand (o : Operand)
  | column (c : ColumnTerm)
  | call (s : Signature) (args : List Term)
  | lookup (r : Signature.Registry) (function : String) (args : List Term)

namespace Term

def builtin (b : Builtin) (args : List Term) : Term := call b.signature args

mutual

def eval : Term → Outcome Operand
  | operand o => .ok o
  | column c => c.eval.map fun c => .expr (.column c)
  | call s args => do
    let os ← evalAll args
    return .expr (← s.apply os)
  | lookup r function args => do
    let os ← evalAll args
    let s ← r.get function
    return .expr (← s.apply os)

def evalAll : List Term → Outcome (List Operand)
  | [] => .ok []
  | t :: ts => do
    let o ← eval t
    let os ← evalAll ts
    return o :: os

end

/-- The expression that a term evaluates to, in an argument of the method. -/
def evalExpr (method : String) (t : Term) : Outcome Expr := do
  (← t.eval).toExpr method

end Term

end SqlDraft
