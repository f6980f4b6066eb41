import SqlDraft.Command
import SqlDraft.Table
import SqlDraft.Ty.Match
import SqlDraft.Value

/-! The tree of a drafted query. Expressions, conditions and queries hold one another: a query may
stand as an expression in the condition of another one. Methods are called on handles to queries,
and every method gives a new query; the command of a query is what it is written as. -/

namespace SqlDraft

/-- What a call settled on when its arguments were matched: the function, the type of the result,
the types its parameters took, and the variables bound. -/
structure CallHead where
  function : String
  type : Ty
  matched : List Ty
  bindings : Bindings

mutual

inductive Expr where
  | column (c : Column)
  | call (head : CallHead) (args : List Expr)
  | literal (value : Value) (type : Ty)
  | list (values : List Value) (type : Ty)
  | subquery (query : Query)
  | star (table : Table)

inductive Cond where
  | predicate (e : Expr)
  | joined (joiner : Joiner) (operands : List Cond)
  | group (c : Cond)

/-- An expression that a select lists, under a name of its own or not. -/
structure Item where
  expr : Expr
  label : Option String

/-- A joined table, with the condition or the shared columns of the join. -/
structure Join where
  kind : JoinKind
  table : Table
  condition : Option Cond := none
  shared : Option (List String) := none

structure Assignment where
  column : Column
  value : Expr

/-- A drafted query. An empty projection stands for every column, and the condition of a scope is
kept where a statement keeps that of its rows. -/
structure Query where
  command : Command
  table : Option Table := none
  isDistinct : Bool := false
  projection : List Item := []
  joins : List Join := []
  filter : Option Cond := none
  grouping : List Expr := []
  having : Option Cond := none
  ordering : List Expr := []
  limit : Option Float := none
  offset : Option Float := none
  insertColumns : List Column := []
  rows : List (List Expr) := []
  assignments : List Assignment := []
  ifExists : Bool := false
  ifNotExists : Bool := false

end

/-! ## Types -/

mutual

def Expr.type : Expr → Ty
  | .column c => c.type
  | .call head _ => head.type
  | .literal _ t => t
  | .list _ t => t
  | .subquery q => q.resultType
  | .star _ => .collection .any

/-- The type of the column that a listed expression makes. -/
def Item.columnType : Item → Ty
  | ⟨e, _⟩ => .collection e.type.inner

/-- A query used as an expression has the type of the one column it lists, or else of any. -/
def Query.resultType : Query → Ty
  | { projection := items, .. } => Query.soleType items

def Query.soleType : List Item → Ty
  | [item] => item.columnType
  | _ => .collection .any

end

/-- The tables a statement reads or writes of its own: its target and what is joined. -/
def Query.ownTables (q : Query) : List Table := q.table.toList ++ q.joins.map Join.table

/-! ## Operands -/

/-- What may stand where an expression is expected: an expression, a bare value, a list of bare
values, or a query. -/
inductive Operand where
  | expr (e : Expr)
  | value (v : Value)
  | list (values : List Value)
  | query (q : Query)

/-- The expression that an operand stands for, in an argument of the method. -/
def Operand.toExpr (method : String) : Operand → Outcome Expr
  | .expr e => .ok e
  | .value v => .ok (.literal v v.type)
  | .list values => (Value.listType method values).map (.list values)
  | .query q => .ok (.subquery q)

end SqlDraft
