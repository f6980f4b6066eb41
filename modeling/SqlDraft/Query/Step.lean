import SqlDraft.Query.Payload
import SqlDraft.Query.Shape
import SqlDraft.Record
import SqlDraft.Signature.Term

/-! Drafting as data: the methods applied to a query, with terms for their arguments. The terms of a
step are evaluated before its method is applied; what a nested draft holds is evaluated when the
method asks for it. -/

namespace SqlDraft

/-- What a select is asked to list, before it is evaluated. -/
inductive ListedTerm where
  | star (t : Table)
  | labelled (t : Term) (label : String)
  | term (t : Term)

/-- A label names an expression only. A bare value beside a text is a list of the two; anything else
there counts as a truth value, with which a text makes no list. -/
def ListedTerm.eval : ListedTerm → Outcome Listed
  | star t => .ok (.star t)
  | labelled t label => do
    match ← t.eval with
    | .expr e => return .labelled e label
    | .value v => return .operand (.list [v, .text label])
    | .list _ | .query _ =>
      throw (.argument "select" (.mixedList Kind.boolean.label Kind.string.label))
  | term t => t.eval.map .operand

/-- The select of the listed terms, all of which are evaluated first. -/
def Query.selectTerms (items : List ListedTerm) : Outcome Query := do
  Query.select (← items.mapM ListedTerm.eval)

mutual

inductive Step where
  | target (t : Table)
  | restrict (clause : Clause) (link : Link) (condition : Term)
  | restrictGroup (clause : Clause) (link : Link) (draft : Draft)
  | join (kind : JoinKind) (t : Table)
  | joinDraft (kind : JoinKind) (t : Table) (draft : Draft)
  | share (columns : List String)
  | groupBy (terms : List Term)
  | orderBy (terms : List Term)
  | fetch (n : Float)
  | skip (n : Float)
  | distinct
  | values (rows : List (List (String × Term)))
  | assign (fields : List (String × Term))
  | assignColumn (c : ColumnTerm) (value : Term)
  | onlyIfExists
  | onlyIfMissing

/-- What a nested draft hands back: the query it was handed after further steps, or a query made
elsewhere. -/
inductive Draft where
  | steps (steps : List Step)
  | foreign (q : Query)

end

def evalField (field : String × Term) : Outcome (String × Operand) :=
  field.2.eval.map fun o => (field.1, o)

/-- The record of the fields, all of which are evaluated first. -/
def evalFields (fields : List (String × Term)) : Outcome (Catalog Operand) :=
  (fields.mapM evalField).map Record.ofFields

mutual

def Step.apply : Step → (q : Query) → (k : Command := q.command) → Outcome Query
  | .target t, q, k => q.target t k
  | .restrict clause link condition, q, k => do
    let o ← condition.eval
    q.restrict clause link (.operand o) k
  | .restrictGroup clause link draft, q, k => q.restrict clause link (.draft draft.run) k
  | .join kind t, q, k => q.join kind t none k
  | .joinDraft kind t draft, q, k => q.join kind t (some draft.run) k
  | .share columns, q, k => q.share columns k
  | .groupBy terms, q, k => do
    let es ← terms.mapM (Term.evalExpr Method.groupBy.name)
    q.groupBy es k
  | .orderBy terms, q, k => do
    let es ← terms.mapM (Term.evalExpr Method.orderBy.name)
    q.orderBy es k
  | .fetch n, q, k => q.fetch n k
  | .skip n, q, k => q.skip n k
  | .distinct, q, k => q.distinct k
  | .values rows, q, k => do
    let records ← rows.mapM evalFields
    q.insertRows records k
  | .assign fields, q, k => do
    let record ← evalFields fields
    q.assign record k
  | .assignColumn c value, q, k => do
    let c ← c.eval
    let o ← value.eval
    q.assignColumn c o k
  | .onlyIfExists, q, k => q.onlyIfExists k
  | .onlyIfMissing, q, k => q.onlyIfMissing k

def Step.applyAll : List Step → Query → Outcome Query
  | [], q => .ok q
  | s :: rest, q => do
    let q ← s.apply q
    Step.applyAll rest q

def Draft.run : Draft → Query → Outcome Query
  | .steps steps, q => Step.applyAll steps q
  | .foreign r, _ => .ok r

end

end SqlDraft
