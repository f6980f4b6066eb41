/-! Why a step of drafting or writing a query is refused. A fault names its cause and what was at
hand; the wording of every cause is in one place, `Fault.message`. Causes that outside code may
word itself have a constructor `stated`, and so have the numbers it may give. -/

namespace SqlDraft

/-- Why a method cannot be applied to the query at hand. -/
inductive OperationIssue where
  | notAllowed
  | noTable
  | noJoin
  | crossJoin
  | onAndUsing
  | stated (text : String)
deriving DecidableEq, Repr

/-- What is wrong with an argument. Types and numbers are given by their written form. -/
inductive ArgumentIssue where
  | emptyList
  | mixedList (first other : String)
  | listProjected
  | foreignScope (scope : String)
  | emptyGroup
  | noSharedColumn
  | notColumnBound (type : String)
  | notOrdering
  | notRowCount (number : String)
  | noRows
  | noRowColumn
  | rowColumns (columns : List String)
  | foreignColumn (column table : String)
  | noAssignment
  | stated (text : String)
deriving DecidableEq, Repr

/-- What is wrong with a function's own definition. -/
inductive DefinitionIssue where
  | unboundVariable (variableName : String)
  | openUnion (type : String)
  | openReturn (type : String)
  | registeredTwice
  | stated (text : String)
deriving DecidableEq, Repr

/-- Why a query has no text in a dialect. -/
inductive WritingIssue where
  | notFinite (number : String)
  | missingArgument (function : String) (index : Nat)
  | emptyList
  | outOfScope (table reference : String)
  | noTable (command : String)
  | conditionOnCrossJoin (table : String)
  | joinWithoutCondition (table : String)
  | noRows (table : String)
  | noAssignments (table : String)
  | noColumns (table : String)
  | columnWithoutKind (column table : String)
  | scopeAlone (scope : String)
  | unsupported (command : String)
  | stated (text : String)
deriving DecidableEq, Repr

/-- A number in a fault: a count, or a number that outside code states in its written form. -/
inductive Figure where
  | count (n : Nat)
  | stated (written : String)
deriving DecidableEq, Repr

/-- The causes of refusal. An optional `text` replaces the usual wording of its cause. -/
inductive Fault where
  | general (text : String)
  | arity (function : String) (expected actual : Figure) (text : Option String := none)
  | mismatch (function : String) (index : Figure) (expected actual : String)
      (text : Option String := none)
  | conflict (function variableName : String) (types : List String) (indices : List Figure)
      (text : Option String := none)
  | operation (command method : String) (issue : OperationIssue)
  | argument (method : String) (issue : ArgumentIssue)
  | unknownColumn (table column : String)
  | unknownFunction (function : String)
  | definition (function : String) (issue : DefinitionIssue)
  | noRule (dialect function : String)
  | unknownDialect (dialect : String)
  | writing (dialect : String) (issue : WritingIssue)
  | noInstant
deriving DecidableEq, Repr

/-- What a step gives unless it is refused. -/
abbrev Outcome := Except Fault

def commas (parts : List String) : String := ", ".intercalate parts

def OperationIssue.message (command method : String) : OperationIssue → String
  | notAllowed => s!"{method}() is not allowed on a {command} query"
  | noTable => s!"{method}() needs a target table"
  | noJoin => s!"{method}() needs a preceding join"
  | crossJoin => "a cross join takes no join condition"
  | onAndUsing => "a join takes either ON or USING, not both"
  | stated text => text

def ArgumentIssue.message : ArgumentIssue → String
  | emptyList => "a value list needs at least one value"
  | mixedList first other => s!"list mixes {first} and {other} values"
  | listProjected => "a value list cannot be projected"
  | foreignScope scope => s!"the callback must return the {scope} builder it was given"
  | emptyGroup => "the grouped condition is empty"
  | noSharedColumn => "at least one column name is required"
  | notColumnBound type => s!"expected a column-bound expression, found {type}"
  | notOrdering => "expected a column or an asc()/desc() call"
  | notRowCount number => s!"expected a non-negative integer, got {number}"
  | noRows => "at least one row is required"
  | noRowColumn => "a row must name at least one column"
  | rowColumns columns => "every row must name the columns " ++ commas columns
  | foreignColumn column table => s!"column {column} does not belong to {table}"
  | noAssignment => "at least one assignment is required"
  | stated text => text

def DefinitionIssue.message : DefinitionIssue → String
  | unboundVariable name => s!"type variable {name} is not bound by any parameter"
  | openUnion type => s!"cannot produce an unresolved {type}"
  | openReturn type => s!"return type must be concrete or a collection, got {type}"
  | registeredTwice => "a function with this name is already registered"
  | stated text => text

def WritingIssue.message : WritingIssue → String
  | notFinite number => s!"cannot render the number {number}"
  | missingArgument function index => s!"{function} is missing argument {index}"
  | emptyList => "a value list needs at least one value"
  | outOfScope table reference =>
    s!"{table}.{reference} is not in scope; add {table} to FROM or a join"
  | noTable command => s!"a {command} statement needs a target table"
  | conditionOnCrossJoin table => s!"a cross join on {table} takes no join condition"
  | joinWithoutCondition table => s!"join on {table} has neither ON nor USING"
  | noRows table => s!"insert into {table} has no rows"
  | noAssignments table => s!"update {table} has no assignments"
  | noColumns table => s!"create table {table} needs declared columns"
  | columnWithoutKind column table => s!"column {column} of {table} has no concrete type"
  | scopeAlone scope => s!"a {scope} sub-builder cannot be compiled on its own"
  | unsupported command => s!"{command} statements are not supported"
  | stated text => text

def Figure.text : Figure → String
  | count n => toString n
  | stated written => written

/-- The wording of a fault. -/
def Fault.message : Fault → String
  | general text => text
  | arity function expected actual text =>
    text.getD s!"{function} expects {expected.text} argument(s), got {actual.text}"
  | mismatch function index expected actual text =>
    text.getD s!"Argument {index.text} for {function}: expected {expected}, found {actual}"
  | conflict function variableName types indices text =>
    text.getD (
      "Arguments " ++ commas (indices.map Figure.text) ++
      s!" of {function} must share type {variableName}, found " ++ commas types)
  | operation command method issue => issue.message command method
  | argument method issue => s!"{method}(): " ++ issue.message
  | unknownColumn table column => s!"Table {table} has no column {column}"
  | unknownFunction function => s!"No function registered under {function}"
  | definition function issue => s!"{function}: " ++ issue.message
  | noRule dialect function => s!"Dialect {dialect} has no render rule for function {function}"
  | unknownDialect dialect => s!"No dialect registered under {dialect}"
  | writing dialect issue => s!"[{dialect}] " ++ issue.message
  | noInstant => "Invalid time value"

end SqlDraft
