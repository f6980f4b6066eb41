import SqlDraft.Decimal.Text
import SqlDraft.Dialect.Basic
import SqlDraft.Query.Basic

/-! What a statement is written with: a dialect, the tables of the statement itself, and the tables
of the statements around it. Only columns of these tables can be written. A column is written
with its table where the statement has several tables of its own, or where the table is not one of
its own. -/

namespace SqlDraft.Sql

structure Site where
  dialect : Dialect
  own : List Table
  outer : List Table

namespace Site

/-- The table is one of the statement, or of a statement around it. -/
def Sees (s : Site) (t : Table) : Prop := t ∈ s.own ∨ t ∈ s.outer

instance (s : Site) (t : Table) : Decidable (s.Sees t) := inferInstanceAs (Decidable (_ ∨ _))

def fault (s : Site) (issue : WritingIssue) : Fault := .writing s.dialect.name issue

/-! ## Words and names -/

def keyword (s : Site) (k : Keyword) : Token := .word (s.dialect.keywords k)

def name (s : Site) (n : String) : Token := .name (s.dialect.quoting.write n)

def tableName (s : Site) (t : Table) : Tokens :=
  match t.database with
  | none => [s.name t.name]
  | some database => [s.name database, .mark ".", s.name t.name]

/-- Whether what belongs to the table is written with the table's name. -/
def qualifies (s : Site) (t : Table) : Prop := 1 < s.own.length ∨ t ∉ s.own

instance (s : Site) (t : Table) : Decidable (s.qualifies t) :=
  inferInstanceAs (Decidable (_ ∨ _))

/-- What belongs to a table, given its own written form and its name in faults. -/
def reference (s : Site) (t : Table) (written : Token) (called : String) : Outcome Tokens :=
  if s.Sees t then
    .ok (if s.qualifies t then s.tableName t ++ [.mark ".", written] else [written])
  else .error (s.fault (.outOfScope t.qualifiedName called))

def column (s : Site) (c : Column) : Outcome Tokens := s.reference c.table (s.name c.name) c.name

def star (s : Site) (t : Table) : Outcome Tokens := s.reference t (.mark "*") "*"

/-! ## Literals -/

/-- The temporal kind that a type gives to its literals. -/
def temporal? (t : Ty) : Option Temporal :=
  match t.inner with
  | .concrete k => k.temporal?
  | _ => none

def literal (s : Site) (type : Ty) : Value → Outcome Tokens
  | .null => .ok [s.keyword .null]
  | .truth b => .ok [s.keyword (.truth b)]
  | .number x =>
    if Decimal.isFinite x then .ok [.number (Decimal.text x)]
    else .error (s.fault (.notFinite (Decimal.text x)))
  | .text v =>
    match temporal? type with
    | none => .ok [.literal (s.dialect.literals.string v)]
    | some t => .ok [.literal (s.dialect.literals.temporal t v)]
  | .date none => .error .noInstant
  | .date (some i) =>
    let t := (temporal? type).getD .datetime
    .ok [.literal (s.dialect.literals.temporal t (String.ofList (i.textAs t)))]

end Site

end SqlDraft.Sql
