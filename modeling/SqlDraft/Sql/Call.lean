import SqlDraft.Sql.Outcomes
import SqlDraft.Sql.Site

/-! How the call of a function is written by the rule its dialect has for it, once its arguments
have been written each on its own. -/

namespace SqlDraft.Sql

/-- The binding strength of an expression that is written with an operator between its operands. -/
def Site.precedence? (s : Site) : Expr → Option Rat
  | .call head _ => (s.dialect.rule? head.function).bind Rule.precedence?
  | _ => none

/-- An operand, enclosed if it binds in a way that would be misread. -/
def Site.operand (s : Site) (misread : Rat → Bool) (e : Expr) (ts : Tokens) : Tokens :=
  match s.precedence? e with
  | some p => if misread p then ts.enclosed else ts
  | none => ts

/-- An expression with the outcome of writing it. -/
structure Argument where
  expr : Expr
  outcome : Outcome Tokens

namespace Site

/-- The argument of a call at the index, as an operand. -/
def operandAt (s : Site) (function : String) (args : List Argument) (index : Nat)
    (misread : Rat → Bool) : Outcome Tokens :=
  match args[index]? with
  | some a => a.outcome.map (s.operand misread a.expr)
  | none => .error (s.fault (.missingArgument function index))

/-- The list or query that something is sought in; these come enclosed. -/
def container (a : Argument) : Outcome Tokens :=
  match a.expr with
  | .list .. | .subquery _ => a.outcome
  | _ => a.outcome.map Tokens.enclosed

def containerAt (s : Site) (function : String) (args : List Argument) (index : Nat) :
    Outcome Tokens :=
  match args[index]? with
  | some a => container a
  | none => .error (s.fault (.missingArgument function index))

/-- A call written by a rule. -/
def apply (s : Site) (function : String) (args : List Argument) : Rule → Outcome Tokens
  | .between operator p alone => do
    let left ← s.operandAt function args 0 fun q => if alone = some true then q ≤ p else q < p
    let right ← s.operandAt function args 1 fun q => q ≤ p
    return left ++ [Tokens.space, .word operator, Tokens.space] ++ right
  | .before operator => do
    let operand ← s.operandAt function args 0 fun _ => true
    return [.word operator, Tokens.space] ++ operand
  | .after operator => do
    let operand ← s.operandAt function args 0 fun _ => true
    return operand ++ [Tokens.space, .word operator]
  | .call name => do
    let parts ← gather (args.map Argument.outcome)
    return .word name :: (Tokens.listed parts).enclosed
  | .membership operator => do
    let left ← s.operandAt function args 0 fun _ => true
    let right ← s.containerAt function args 1
    return left ++ [Tokens.space, .word operator, Tokens.space] ++ right
  | .custom write => do
    let parts ← gather (args.map Argument.outcome)
    return write parts

def call (s : Site) (function : String) (args : List Argument) : Outcome Tokens :=
  match s.dialect.rule? function with
  | some rule => s.apply function args rule
  | none => .error (.noRule s.dialect.name function)

end Site

end SqlDraft.Sql
