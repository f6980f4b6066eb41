/-! What a query is drafted for, the methods that add to a draft, and which methods each purpose
admits. Besides the six statements there are scopes, in which a group of conditions or a single
join is drafted on its own. -/

namespace SqlDraft

/-- The clauses that hold a condition: of rows, of groups, and of a join. -/
inductive Clause where
  | filter | having | pairing
deriving DecidableEq, Repr

namespace Clause

def all : List Clause := [filter, having, pairing]

def name : Clause → String
  | filter => "where"
  | having => "having"
  | pairing => "on"

end Clause

inductive Statement where
  | select | insert | update | delete | create | drop
deriving DecidableEq, Repr

namespace Statement

def all : List Statement := [select, insert, update, delete, create, drop]

theorem mem_all (s : Statement) : s ∈ all := by cases s <;> decide

def name : Statement → String
  | select => "select"
  | insert => "insert"
  | update => "update"
  | delete => "delete"
  | create => "create"
  | drop => "drop"

end Statement

/-- What is drafted apart from a statement: a condition for a clause, or one join. -/
inductive Scope where
  | condition (clause : Clause)
  | join
deriving DecidableEq, Repr

namespace Scope

def all : List Scope := Clause.all.map condition ++ [join]

def name : Scope → String
  | condition clause => clause.name
  | join => "join"

end Scope

/-- What a query is drafted for. -/
inductive Command where
  | statement (s : Statement)
  | scope (s : Scope)
deriving DecidableEq, Repr

namespace Command

def all : List Command := Statement.all.map statement ++ Scope.all.map scope

def name : Command → String
  | statement s => s.name
  | scope s => s.name

end Command

inductive JoinKind where
  | inner | outer | left | right | cross
deriving DecidableEq, Repr

namespace JoinKind

def all : List JoinKind := [inner, outer, left, right, cross]

def name : JoinKind → String
  | inner => "inner"
  | outer => "outer"
  | left => "left"
  | right => "right"
  | cross => "cross"

end JoinKind

/-- How two conditions are joined into one. -/
inductive Joiner where
  | both | either
deriving DecidableEq, Repr

namespace Joiner

def name : Joiner → String
  | both => "and"
  | either => "or"

end Joiner

/-- How a method adds its condition to what the clause holds: the plain form joins like `both`. -/
inductive Link where
  | plain | both | either
deriving DecidableEq, Repr

namespace Link

def all : List Link := [plain, both, either]

def joiner : Link → Joiner
  | plain | both => .both
  | either => .either

end Link

/-- The methods of a draft. -/
inductive Method where
  | target
  | condition (clause : Clause) (link : Link)
  | join (kind : JoinKind)
  | shared
  | groupBy | orderBy | fetch | skip | distinct
  | values | set | ifExists | ifNotExists
deriving DecidableEq, Repr

namespace Method

def all : List Method :=
  [target] ++ (Clause.all.flatMap fun c => Link.all.map (condition c)) ++ JoinKind.all.map join ++
    [shared, groupBy, orderBy, fetch, skip, distinct, values, set, ifExists, ifNotExists]

/-- The name of a method in messages. -/
def name : Method → String
  | target => "from"
  | condition .filter .plain => "where"
  | condition .filter .both => "andWhere"
  | condition .filter .either => "orWhere"
  | condition .having .plain => "having"
  | condition .having .both => "andHaving"
  | condition .having .either => "orHaving"
  | condition .pairing .plain => "on"
  | condition .pairing .both => "andOn"
  | condition .pairing .either => "orOn"
  | join .inner => "innerJoin"
  | join .outer => "outerJoin"
  | join .left => "leftJoin"
  | join .right => "rightJoin"
  | join .cross => "crossJoin"
  | shared => "using"
  | groupBy => "groupBy"
  | orderBy => "orderBy"
  | fetch => "fetch"
  | skip => "skip"
  | distinct => "distinct"
  | values => "values"
  | set => "set"
  | ifExists => "ifExists"
  | ifNotExists => "ifNotExists"

theorem mem_all (m : Method) : m ∈ all := by
  cases m with
  | condition c l => cases c <;> cases l <;> decide
  | join k => cases k <;> decide
  | _ => decide

def ofName? (s : String) : Option Method := all.find? fun m => m.name == s

end Method

namespace Command

/-- Whether a draft for the command has the method. -/
def admits : Command → Method → Bool
  | statement .select, m =>
    match m with
    | .values | .set | .ifExists | .ifNotExists => false
    | _ => true
  | statement .delete, m => (m matches .target | .condition .filter _)
  | statement .update, m => (m matches .set | .condition .filter _)
  | statement .insert, m => (m matches .values)
  | statement .create, m => (m matches .ifNotExists)
  | statement .drop, m => (m matches .ifExists)
  | scope (.condition .filter), m => (m matches .condition .filter _)
  | scope (.condition .pairing), m => (m matches .condition .filter _ | .condition .pairing _)
  | scope (.condition .having), m => (m matches .condition .filter _ | .condition .having _)
  | scope .join, m => (m matches .condition .pairing _ | .shared)

/-- The methods of a draft for the command. -/
def methods (c : Command) : List Method := Method.all.filter c.admits

end Command

end SqlDraft
