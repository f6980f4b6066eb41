import SqlDraft.Sql.Layout

/-! Statements and all they hold as text. Each expression, condition and query is written on its
own; a query within a statement sees the tables of the statement besides its own. `Query.write_eq`
puts a query's parts together. -/

namespace SqlDraft

open Sql

/-- How tightly the word that joins two conditions binds. -/
def Joiner.precedence : Joiner → Rat
  | both => 2
  | either => 1

mutual

def Expr.write (s : Site) : Expr → Outcome Tokens
  | .column c => s.column c
  | .star t => s.star t
  | .literal v t => s.literal t v
  | .list values t =>
    if values.isEmpty then .error (s.fault .emptyList)
    else (gather (values.map (s.literal t))).map fun parts => (Tokens.listed parts).enclosed
  | .subquery q => (q.write s.dialect (s.own ++ s.outer)).map Tokens.enclosed
  | .call head args => s.call head.function (Expr.arguments s args)

/-- Expressions with the outcomes of writing them. -/
def Expr.arguments (s : Site) : List Expr → List Argument
  | [] => []
  | e :: es => ⟨e, e.write s⟩ :: Expr.arguments s es

/-- Lists of expressions, each written on its own. -/
def Expr.rows (s : Site) : List (List Expr) → List (List (Outcome Tokens))
  | [] => []
  | es :: rest => (Expr.arguments s es).map Argument.outcome :: Expr.rows s rest

/-- A condition, as a part of one joined by the given word or as a whole. Conditions joined by the
looser word are enclosed within the tighter. -/
def Cond.write (s : Site) (within : Option Joiner) : Cond → Outcome Tokens
  | .predicate e =>
    (e.write s).map fun ts =>
      match within with
      | none => ts
      | some j => s.operand (fun p => p < j.precedence) e ts
  | .group c => (c.write s none).map Tokens.enclosed
  | .joined j operands => do
    let parts ← gather (Cond.writeEach s (some j) operands)
    let ts := Tokens.separated [Tokens.space, s.keyword (.joiner j), Tokens.space] parts
    return if j = .either ∧ within = some .both then ts.enclosed else ts

def Cond.writeEach (s : Site) (within : Option Joiner) : List Cond → List (Outcome Tokens)
  | [] => []
  | c :: cs => c.write s within :: Cond.writeEach s within cs

def Cond.write? (s : Site) : Option Cond → Option (Outcome Tokens)
  | none => none
  | some c => some (c.write s none)

def Item.write (s : Site) : Item → Outcome Tokens
  | ⟨e, label⟩ => (e.write s).map (s.item label)

def Item.writeEach (s : Site) : List Item → List (Outcome Tokens)
  | [] => []
  | i :: rest => i.write s :: Item.writeEach s rest

def Join.write (s : Site) : Join → Outcome Tokens
  | ⟨kind, table, condition, shared⟩ =>
    s.join ⟨kind, table, condition, shared⟩ (Cond.write? s condition)

def Join.writeEach (s : Site) : List Join → List (Outcome Tokens)
  | [] => []
  | j :: rest => j.write s :: Join.writeEach s rest

def Assignment.write (s : Site) : Assignment → Outcome Tokens
  | ⟨c, e⟩ => (e.write s).map (s.assignment c)

def Assignment.writeEach (s : Site) : List Assignment → List (Outcome Tokens)
  | [] => []
  | a :: rest => a.write s :: Assignment.writeEach s rest

/-- A query as a statement, within statements that have the outer tables. -/
def Query.write (d : Dialect) (outer : List Table) : Query → Outcome Tokens
  | ⟨command, table, isDistinct, projection, joins, filter, grouping, having, ordering, limit,
      offset, insertColumns, rows, assignments, ifExists, ifNotExists⟩ =>
    let q : Query := ⟨command, table, isDistinct, projection, joins, filter, grouping, having,
      ordering, limit, offset, insertColumns, rows, assignments, ifExists, ifNotExists⟩
    let s : Site := ⟨d, q.ownTables, outer⟩
    s.statement q
      { projection := Item.writeEach s projection
        joins := Join.writeEach s joins
        filter := Cond.write? s filter
        grouping := (Expr.arguments s grouping).map Argument.outcome
        having := Cond.write? s having
        ordering := (Expr.arguments s ordering).map Argument.outcome
        rows := Expr.rows s rows
        assignments := Assignment.writeEach s assignments }

end

/-! ## What a statement is written with -/

/-- Where the parts of a query are written, within statements that have the outer tables. -/
def Query.site (q : Query) (d : Dialect) (outer : List Table) : Site := ⟨d, q.ownTables, outer⟩

/-- The parts of a query, each written on its own. -/
def Query.parts (q : Query) (s : Site) : Parts where
  projection := Item.writeEach s q.projection
  joins := Join.writeEach s q.joins
  filter := Cond.write? s q.filter
  grouping := (Expr.arguments s q.grouping).map Argument.outcome
  having := Cond.write? s q.having
  ordering := (Expr.arguments s q.ordering).map Argument.outcome
  rows := Expr.rows s q.rows
  assignments := Assignment.writeEach s q.assignments

theorem Query.write_eq (q : Query) (d : Dialect) (outer : List Table) :
    q.write d outer = (q.site d outer).statement q (q.parts (q.site d outer)) := by
  cases q
  rw [Query.write]
  rfl

theorem Item.write_eq (i : Item) (s : Site) :
    i.write s = (i.expr.write s).map (s.item i.label) := by
  cases i
  rw [Item.write]

theorem Join.write_eq (j : Join) (s : Site) : j.write s = s.join j (Cond.write? s j.condition) := by
  cases j
  rw [Join.write]

theorem Assignment.write_eq (a : Assignment) (s : Site) :
    a.write s = (a.value.write s).map (s.assignment a.column) := by
  cases a
  rw [Assignment.write]

/-! ## Lists are written item by item -/

theorem Expr.arguments_eq_map (s : Site) (es : List Expr) :
    Expr.arguments s es = es.map fun e => ⟨e, e.write s⟩ := by
  induction es with
  | nil => rfl
  | cons e es ih => simp [Expr.arguments, ih]

theorem Expr.rows_eq_map (s : Site) (rows : List (List Expr)) :
    Expr.rows s rows = rows.map fun es => es.map fun e => e.write s := by
  induction rows with
  | nil => rfl
  | cons es rows ih => simp [Expr.rows, ih, Expr.arguments_eq_map, Function.comp_def]

theorem Cond.writeEach_eq_map (s : Site) (within : Option Joiner) (cs : List Cond) :
    Cond.writeEach s within cs = cs.map fun c => c.write s within := by
  induction cs with
  | nil => rfl
  | cons c cs ih => simp [Cond.writeEach, ih]

theorem Cond.write?_eq_map (s : Site) (c : Option Cond) :
    Cond.write? s c = c.map fun c => c.write s none := by
  cases c <;> rfl

theorem Item.writeEach_eq_map (s : Site) (items : List Item) :
    Item.writeEach s items = items.map fun i => i.write s := by
  induction items with
  | nil => rfl
  | cons i items ih => simp [Item.writeEach, ih]

theorem Join.writeEach_eq_map (s : Site) (joins : List Join) :
    Join.writeEach s joins = joins.map fun j => j.write s := by
  induction joins with
  | nil => rfl
  | cons j joins ih => simp [Join.writeEach, ih]

theorem Assignment.writeEach_eq_map (s : Site) (assignments : List Assignment) :
    Assignment.writeEach s assignments = assignments.map fun a => a.write s := by
  induction assignments with
  | nil => rfl
  | cons a assignments ih => simp [Assignment.writeEach, ih]

end SqlDraft
