import SqlDraft.Query.Basic

/-! A query by its fields. Each can be read (`Query.field`) and replaced (`Query.withField`), and
replacing one leaves the command and all others as they are. Which field a method writes hangs on
what the draft is for (`Command.field`): a scope has one condition alone, and whatever adds a
condition adds to that. -/

namespace SqlDraft

/-- What a query holds besides its command. The columns of an insert go with its rows. -/
inductive Query.Field where
  | table | distinct | projection | joins | filter | grouping | having | ordering | limit | offset
  | rows | assignments | ifExists | ifNotExists
deriving DecidableEq, Repr

/-- What a field holds. -/
def Query.Field.Value : Query.Field → Type
  | table => Option Table
  | projection => List Item
  | joins => List Join
  | filter | having => Option Cond
  | grouping | ordering => List Expr
  | limit | offset => Option Float
  | rows => List Column × List (List Expr)
  | assignments => List Assignment
  | distinct | ifExists | ifNotExists => Bool

/-- The field that the method writes in a draft for the command. -/
def Command.field (k : Command) : Method → Query.Field
  | .target => .table
  | .condition .filter _ => .filter
  | .condition .having _ => if k = .scope (.condition .having) then .filter else .having
  | .condition .pairing _ => if k = .scope (.condition .pairing) then .filter else .joins
  | .join _ | .shared => .joins
  | .groupBy => .grouping
  | .orderBy => .ordering
  | .fetch => .limit
  | .skip => .offset
  | .distinct => .distinct
  | .values => .rows
  | .set => .assignments
  | .ifExists => .ifExists
  | .ifNotExists => .ifNotExists

namespace Query

def field (q : Query) : (f : Field) → f.Value
  | .table => q.table
  | .distinct => q.isDistinct
  | .projection => q.projection
  | .joins => q.joins
  | .filter => q.filter
  | .grouping => q.grouping
  | .having => q.having
  | .ordering => q.ordering
  | .limit => q.limit
  | .offset => q.offset
  | .rows => (q.insertColumns, q.rows)
  | .assignments => q.assignments
  | .ifExists => q.ifExists
  | .ifNotExists => q.ifNotExists

/-- The query with another value of the field. -/
def withField (q : Query) : (f : Field) → f.Value → Query
  | .table, t => { q with table := t }
  | .distinct, b => { q with isDistinct := b }
  | .projection, items => { q with projection := items }
  | .joins, js => { q with joins := js }
  | .filter, c => { q with filter := c }
  | .grouping, es => { q with grouping := es }
  | .having, c => { q with having := c }
  | .ordering, es => { q with ordering := es }
  | .limit, n => { q with limit := n }
  | .offset, n => { q with offset := n }
  | .rows, v => { q with insertColumns := v.1, rows := v.2 }
  | .assignments, as => { q with assignments := as }
  | .ifExists, b => { q with ifExists := b }
  | .ifNotExists, b => { q with ifNotExists := b }

variable {q : Query} {f f' : Field}

@[simp] theorem command_withField (v : f.Value) : (q.withField f v).command = q.command := by
  cases f <;> rfl

@[simp] theorem field_withField_self (v : f.Value) : (q.withField f v).field f = v := by
  cases f <;> rfl

@[simp] theorem withField_withField (v w : f.Value) :
    (q.withField f v).withField f w = q.withField f w := by
  cases f <;> rfl

@[simp] theorem withField_field : q.withField f (q.field f) = q := by
  cases q
  cases f <;> rfl

theorem field_withField_of_ne (h : f ≠ f') (v : f.Value) :
    (q.withField f v).field f' = q.field f' := by
  cases f <;> cases f' <;> first | rfl | exact absurd rfl h

theorem withField_comm (h : f ≠ f') (v : f.Value) (w : f'.Value) :
    (q.withField f v).withField f' w = (q.withField f' w).withField f v := by
  cases f <;> cases f' <;> first | rfl | exact absurd rfl h

end Query

end SqlDraft
