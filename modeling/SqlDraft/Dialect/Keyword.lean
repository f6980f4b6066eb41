import SqlDraft.Command

/-! The keywords of statements. A dialect may spell each of them as it likes, so a keyword is a role
and its key; the standard spelling is that of the language's standard. -/

namespace SqlDraft

inductive Keyword where
  | select | distinct | source
  | clause (c : Clause)
  | groupBy | orderBy | limit | offset | top | rows | fetchFirst | fetchNext | only
  | label
  | joiner (j : Joiner)
  | shared
  | join (kind : JoinKind)
  | insertInto | values | update | set | deleteFrom
  | createTable | dropTable | ifExists | ifNotExists
  | truth (holds : Bool)
  | null
deriving DecidableEq, Repr

namespace Keyword

def all : List Keyword :=
  [select, distinct, source] ++ Clause.all.map clause ++
  [groupBy, orderBy, limit, offset, top, rows, fetchFirst, fetchNext, only, label] ++
  [.both, .either].map joiner ++ [shared] ++ JoinKind.all.map join ++
  [insertInto, values, update, set, deleteFrom, createTable, dropTable, ifExists, ifNotExists] ++
  [true, false].map truth ++ [null]

theorem mem_all (k : Keyword) : k ∈ all := by
  cases k with
  | clause c => cases c <;> decide
  | joiner j => cases j <;> decide
  | join k => cases k <;> decide
  | truth b => cases b <;> decide
  | _ => decide

/-- The key under which a dialect lists its spelling. -/
def key : Keyword → String
  | select => "select"
  | distinct => "distinct"
  | source => "from"
  | clause c => c.name
  | groupBy => "groupBy"
  | orderBy => "orderBy"
  | limit => "limit"
  | offset => "offset"
  | top => "top"
  | rows => "rows"
  | fetchFirst => "fetchFirst"
  | fetchNext => "fetchNext"
  | only => "only"
  | label => "as"
  | joiner j => j.name
  | shared => "using"
  | join k => k.name ++ "Join"
  | insertInto => "insertInto"
  | values => "values"
  | update => "update"
  | set => "set"
  | deleteFrom => "deleteFrom"
  | createTable => "createTable"
  | dropTable => "dropTable"
  | ifExists => "ifExists"
  | ifNotExists => "ifNotExists"
  | truth true => "true"
  | truth false => "false"
  | null => "null"

def ofKey? (s : String) : Option Keyword := all.find? fun k => k.key == s

/-- The spelling of the language's standard. -/
def standard : Keyword → String
  | groupBy => "group by"
  | orderBy => "order by"
  | fetchFirst => "fetch first"
  | fetchNext => "fetch next"
  | join k => k.name ++ " join"
  | insertInto => "insert into"
  | deleteFrom => "delete from"
  | createTable => "create table"
  | dropTable => "drop table"
  | ifExists => "if exists"
  | ifNotExists => "if not exists"
  | k => k.key

end Keyword

end SqlDraft
