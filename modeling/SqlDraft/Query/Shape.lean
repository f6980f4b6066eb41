import SqlDraft.Decimal.Text
import SqlDraft.Query.Condition
import SqlDraft.Signature.Builtin

/-! Methods that set the target of a draft, and the grouping, order and number of the rows it
gives. -/

namespace SqlDraft.Query

def target (q : Query) (t : Table) (k : Command := q.command) : Outcome Query := do
  k.require .target
  return { q with table := some t }

def groupBy (q : Query) (es : List Expr) (k : Command := q.command) : Outcome Query := do
  k.require .groupBy
  let nodes ← es.mapM fun e =>
    if e.type.isCollection then .ok e
    else .error (.argument Method.groupBy.name (.notColumnBound e.type.describe))
  return { q with grouping := q.grouping ++ nodes }

/-- How rows are ordered by an expression: a column ascends unless told otherwise. -/
def ordering? : Expr → Outcome Expr
  | .column c => (Builtin.order .asc).signature.applyExprs [.column c]
  | .call head args =>
    if head.function = (Builtin.order .asc).name ∨ head.function = (Builtin.order .desc).name then
      .ok (.call head args)
    else .error (.argument Method.orderBy.name .notOrdering)
  | _ => .error (.argument Method.orderBy.name .notOrdering)

def orderBy (q : Query) (es : List Expr) (k : Command := q.command) : Outcome Query := do
  k.require .orderBy
  let nodes ← es.mapM ordering?
  return { q with ordering := q.ordering ++ nodes }

/-- A number of rows. -/
def rowCount (m : Method) (n : Float) : Outcome Float :=
  if Decimal.isCount n then .ok n else .error (.argument m.name (.notRowCount (Decimal.text n)))

def fetch (q : Query) (n : Float) (k : Command := q.command) : Outcome Query := do
  k.require .fetch
  return { q with limit := some (← rowCount .fetch n) }

def skip (q : Query) (n : Float) (k : Command := q.command) : Outcome Query := do
  k.require .skip
  return { q with offset := some (← rowCount .skip n) }

def distinct (q : Query) (k : Command := q.command) : Outcome Query := do
  k.require .distinct
  return { q with isDistinct := true }

def onlyIfExists (q : Query) (k : Command := q.command) : Outcome Query := do
  k.require .ifExists
  return { q with ifExists := true }

def onlyIfMissing (q : Query) (k : Command := q.command) : Outcome Query := do
  k.require .ifNotExists
  return { q with ifNotExists := true }

end SqlDraft.Query
