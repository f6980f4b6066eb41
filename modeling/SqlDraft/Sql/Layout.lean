import SqlDraft.Sql.Call

/-! How a statement is laid out, once the expressions and conditions in it have been written each on
its own. -/

namespace SqlDraft.Sql

/-- The outcomes of writing what a query holds, clause by clause. -/
structure Parts where
  projection : List (Outcome Tokens)
  joins : List (Outcome Tokens)
  filter : Option (Outcome Tokens)
  grouping : List (Outcome Tokens)
  having : Option (Outcome Tokens)
  ordering : List (Outcome Tokens)
  rows : List (List (Outcome Tokens))
  assignments : List (Outcome Tokens)

namespace Site

open Tokens

def target (s : Site) (q : Query) : Outcome Table :=
  match q.table with
  | some t => .ok t
  | none => .error (s.fault (.noTable q.command.name))

/-- A keyword and what it introduces. -/
def introduced (s : Site) (k : Keyword) (ts : Tokens) : Tokens := s.keyword k :: space :: ts

/-- A condition behind its keyword, if there is one. -/
def clause? (s : Site) (c : Clause) (condition : Option (Outcome Tokens)) :
    Outcome (List Tokens) := do
  match ← gatherOption condition with
  | some ts => return [s.introduced (.clause c) ts]
  | none => return []

/-- Expressions behind their keyword, if there are any. -/
def listed? (s : Site) (k : Keyword) (parts : List (Outcome Tokens)) : Outcome (List Tokens) := do
  match ← gather parts with
  | [] => return []
  | ts => return [s.introduced k (listed ts)]

/-! ## Parts of a select -/

def item (s : Site) (label : Option String) (ts : Tokens) : Tokens :=
  match label with
  | some n => ts ++ [space, s.keyword .label, space, s.name n]
  | none => ts

/-- A join, given what was written of its condition. -/
def join (s : Site) (j : Join) (condition : Option (Outcome Tokens)) : Outcome Tokens :=
  let head := s.introduced (.join j.kind) (s.tableName j.table)
  match j.kind with
  | .cross =>
    if j.condition.isSome ∨ j.shared.isSome then
      .error (s.fault (.conditionOnCrossJoin j.table.qualifiedName))
    else .ok head
  | _ =>
    match condition, j.shared with
    | some outcome, _ =>
      outcome.map fun ts => head ++ space :: s.introduced (.clause .pairing) ts
    | none, some (n :: ns) =>
      .ok (head ++ space :: s.introduced .shared
        (listed ((n :: ns).map fun n => [s.name n])).enclosed)
    | none, _ => .error (s.fault (.joinWithoutCondition j.table.qualifiedName))

/-- What a select lists: every column when nothing is named, table by table if there are several. -/
def projection (s : Site) (q : Query) (p : Parts) : Outcome Tokens :=
  if q.projection.isEmpty then
    if 1 < s.own.length then
      .ok (listed (s.own.map fun t => s.tableName t ++ [.mark ".*"]))
    else .ok [.mark "*"]
  else (gather p.projection).map listed

def count (n : Float) : Token := .number (Decimal.text n)

/-- Whether the number of rows is limited in front of what is listed. A number of rows to pass over
cannot stand there. -/
def limitsInFront (s : Site) (q : Query) : Bool :=
  s.dialect.pagination = .top && q.limit.isSome && q.offset.isNone

def front (s : Site) (q : Query) : List Tokens :=
  match s.limitsInFront q, q.limit with
  | true, some n => [s.introduced .top [count n]]
  | _, _ => []

/-- The number of rows and of rows to pass over, at the end of a select. -/
def paging (s : Site) (q : Query) : List Tokens :=
  match s.dialect.pagination with
  | .limitOffset =>
    (q.limit.toList.map fun n => s.introduced .limit [count n]) ++
      q.offset.toList.map fun n => s.introduced .offset [count n]
  | style =>
    if s.limitsInFront q then []
    else
      let fetch : Keyword := if style = .top then .fetchNext else .fetchFirst
      (q.offset.toList.map fun n =>
        s.introduced .offset [count n, space, s.keyword .rows]) ++
      q.limit.toList.map fun n =>
        s.introduced fetch [count n, space, s.keyword .rows, space, s.keyword .only]

/-! ## Statements -/

def select (s : Site) (q : Query) (p : Parts) : Outcome Tokens := do
  let t ← s.target q
  let items ← s.projection q p
  let joins ← gather p.joins
  let filter ← s.clause? .filter p.filter
  let grouping ← s.listed? .groupBy p.grouping
  let having ← s.clause? .having p.having
  let ordering ← s.listed? .orderBy p.ordering
  return spaced <|
    [[s.keyword .select]] ++
    (if q.isDistinct then [[s.keyword .distinct]] else []) ++
    s.front q ++ [items, s.introduced .source (s.tableName t)] ++
    joins ++ filter ++ grouping ++ having ++ ordering ++ s.paging q

def insert (s : Site) (q : Query) (p : Parts) : Outcome Tokens := do
  let t ← s.target q
  if q.insertColumns.isEmpty ∨ q.rows.isEmpty then
    throw (s.fault (.noRows t.qualifiedName))
  let rows ← gather (p.rows.map fun row => (gather row).map fun ts => (listed ts).enclosed)
  let columns := listed (q.insertColumns.map fun c => [s.name c.name])
  return spaced
    [s.introduced .insertInto (s.tableName t), columns.enclosed, [s.keyword .values], listed rows]

def assignment (s : Site) (c : Column) (ts : Tokens) : Tokens := s.name c.name :: .mark " = " :: ts

def update (s : Site) (q : Query) (p : Parts) : Outcome Tokens := do
  let t ← s.target q
  if q.assignments.isEmpty then
    throw (s.fault (.noAssignments t.qualifiedName))
  let assignments ← gather p.assignments
  let filter ← s.clause? .filter p.filter
  return spaced <|
    [s.introduced .update (s.tableName t), s.introduced .set (listed assignments)] ++ filter

def delete (s : Site) (q : Query) (p : Parts) : Outcome Tokens := do
  let t ← s.target q
  let filter ← s.clause? .filter p.filter
  return spaced (s.introduced .deleteFrom (s.tableName t) :: filter)

/-- The declaration of a column, which needs to be of one kind. -/
def definition (s : Site) (c : Column) : Outcome Tokens :=
  match c.data with
  | .concrete k => .ok [s.name c.name, space, .word (s.dialect.typeNames k)]
  | _ => .error (s.fault (.columnWithoutKind c.name c.table.qualifiedName))

def create (s : Site) (q : Query) : Outcome Tokens := do
  let t ← s.target q
  if t.declaredColumns.isEmpty then
    throw (s.fault (.noColumns t.qualifiedName))
  let definitions ← gather (t.declaredColumns.map s.definition)
  return spaced <|
    [[s.keyword .createTable]] ++
    (if q.ifNotExists then [[s.keyword .ifNotExists]] else []) ++
    [s.tableName t, (listed definitions).enclosed]

def drop (s : Site) (q : Query) : Outcome Tokens := do
  let t ← s.target q
  return spaced <|
    [[s.keyword .dropTable]] ++
    (if q.ifExists then [[s.keyword .ifExists]] else []) ++ [s.tableName t]

/-- A statement, given what was written of its parts. -/
def statement (s : Site) (q : Query) (p : Parts) : Outcome Tokens :=
  match q.command with
  | .scope scope => .error (s.fault (.scopeAlone scope.name))
  | .statement command =>
    if command ∈ s.dialect.commands then
      match command with
      | .select => s.select q p
      | .insert => s.insert q p
      | .update => s.update q p
      | .delete => s.delete q p
      | .create => s.create q
      | .drop => s.drop q
    else .error (s.fault (.unsupported command.name))

end Site

end SqlDraft.Sql
