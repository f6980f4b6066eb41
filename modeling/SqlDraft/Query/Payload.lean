import SqlDraft.Query.Condition

/-! What an insert and an update write: rows of values, and values for columns. A value has to have
the type of its column, be it a scalar or a column of it; what is not known fits everywhere. -/

namespace SqlDraft.Query

def requireTable (q : Query) (m : Method) (k : Command := q.command) : Outcome Table :=
  match q.table with
  | some t => .ok t
  | none => .error (.operation k.name m.name .noTable)

/-- Checks the values against the columns they are for. -/
def checkTypes (m : Method) (columns : List Column) (values : List Expr) : Outcome Unit :=
  (Match.run .strict m.name (columns.map fun c => .scalarOrColumn c.data)
    (values.map Expr.type)).map fun _ => ()

/-- The values of a row in the order of the columns, all of which the row has to name. -/
def rowValues (columns : List Column) (row : Catalog Operand) : Outcome (List Expr) := do
  let names := columns.map Column.name
  if row.names.length ≠ names.length ∨ ¬ names.all (· ∈ row) then
    throw (.argument Method.values.name (.rowColumns names))
  let values ← names.mapM fun n =>
    ((row.get? n).getD (.value .null)).toExpr Method.values.name
  checkTypes .values columns values
  return values

/-- The columns of an insert: those of its rows so far, or else those that the first row names. -/
def columnsOf (q : Query) (t : Table) (first : Catalog Operand) : Outcome (List Column) :=
  if q.insertColumns.isEmpty then first.names.mapM t.column else .ok q.insertColumns

/-- Adds rows to an insert. -/
def insertRows (q : Query) (rows : List (Catalog Operand)) (k : Command := q.command) :
    Outcome Query := do
  k.require .values
  let t ← q.requireTable .values k
  match rows with
  | [] => throw (.argument Method.values.name .noRows)
  | first :: _ =>
    let columns ← q.columnsOf t first
    if columns.isEmpty then throw (.argument Method.values.name .noRowColumn)
    let built ← rows.mapM (rowValues columns)
    return { q with insertColumns := columns, rows := q.rows ++ built }

/-- Adds assignments to an update. -/
def addAssignments (q : Query) (pairs : List (Column × Operand)) : Outcome Query := do
  if pairs.isEmpty then throw (.argument Method.set.name .noAssignment)
  let added ← pairs.mapM fun (c, o) => do
    return { column := c, value := ← o.toExpr Method.set.name : Assignment }
  checkTypes .set (added.map Assignment.column) (added.map Assignment.value)
  return { q with assignments := q.assignments ++ added }

/-- Assigns values to columns by name. -/
def assign (q : Query) (record : Catalog Operand) (k : Command := q.command) :
    Outcome Query := do
  k.require .set
  let t ← q.requireTable .set k
  q.addAssignments (← record.entries.mapM fun (n, o) => do return (← t.column n, o))

/-- Assigns a value to a column, which has to be one that the table declares. -/
def assignColumn (q : Query) (c : Column) (o : Operand) (k : Command := q.command) :
    Outcome Query := do
  k.require .set
  let t ← q.requireTable .set k
  let foreign : Fault := .argument Method.set.name (.foreignColumn c.name t.qualifiedName)
  if c.table ≠ t then throw foreign
  if c.same (← t.column c.name) then q.addAssignments [(c, o)] else throw foreign

end SqlDraft.Query
