import SqlDraft.Dialect.Basic
import SqlDraft.Signature.Builtin

/-! The dialects at hand from the start: a generic one close to the language's standard, and those
of three databases as changes to it. -/

namespace SqlDraft.Dialect

/-- The words that need delimiters to serve as names. -/
def reservedWords : List String :=
  ["all", "and", "any", "as", "asc", "between", "by", "case", "cast", "check", "collate",
    "column", "constraint", "create", "cross", "current_date", "current_time",
    "current_timestamp", "default", "delete", "desc", "distinct", "drop", "else", "end", "escape",
    "except", "exists", "false", "fetch", "for", "foreign", "from", "full", "grant", "group",
    "having", "if", "in", "index", "inner", "insert", "intersect", "into", "is", "join", "key",
    "left", "like", "limit", "natural", "not", "null", "of", "offset", "on", "only", "or",
    "order", "outer", "over", "partition", "primary", "references", "revoke", "right", "rows",
    "select", "set", "some", "table", "then", "to", "top", "true", "union", "unique", "update",
    "user", "using", "values", "when", "where", "window", "with", "xor"]

/-- How tightly the operators bind, from the loosest. -/
inductive Level where
  | disjunction | conjunction | comparison | additive | multiplicative
deriving DecidableEq, Repr

namespace Level

def all : List Level := [disjunction, conjunction, comparison, additive, multiplicative]

def name : Level → String
  | disjunction => "or"
  | conjunction => "and"
  | comparison => "comparison"
  | additive => "additive"
  | multiplicative => "multiplicative"

def precedence : Level → Rat
  | disjunction => 1
  | conjunction => 2
  | comparison => 3
  | additive => 4
  | multiplicative => 5

end Level

def binary (operator : String) (level : Level) : Rule := .between operator level.precedence

def comparing (operator : String) : Rule := .comparing operator Level.comparison.precedence

def arithmeticRule : Arithmetic → Rule
  | .add => binary "+" .additive
  | .subtract => binary "-" .additive
  | .multiply => binary "*" .multiplicative
  | .divide => binary "/" .multiplicative
  | .modulo => binary "%" .multiplicative

def comparisonRule : Comparison → Rule
  | .equals => comparing "="
  | .notEquals => comparing "<>"
  | .less => comparing "<"
  | .lessOrEqual => comparing "<="
  | .greater => comparing ">"
  | .greaterOrEqual => comparing ">="

def connectiveRule : Connective → Rule
  | .and => binary "and" .conjunction
  | .or => binary "or" .disjunction
  | .xor => binary "xor" .disjunction

/-- How the generic dialect writes a function; it has no `like` that ignores case. -/
def genericRule? : Builtin → Option Rule
  | .arithmetic op => some (arithmeticRule op)
  | .comparison op => some (comparisonRule op)
  | .connective op => some (connectiveRule op)
  | .not => some (.before "not")
  | .like => some (comparing "like")
  | .member => some (.membership "in")
  | .isNull => some (.after "is null")
  | .isNotNull => some (.after "is not null")
  | .aggregate op => some (.call (Builtin.aggregate op).name)
  | .countAll => some (.template [.word "count", .text "(*)"])
  | .order d => some (.after (Builtin.order d).name)
  | .ilike => none

def genericTypeName : Kind → String
  | .boolean => "boolean"
  | .number => "numeric"
  | .string => "text"
  | .date => "date"
  | .time => "time"
  | .datetime => "timestamp"

def generic : Dialect where
  name := "generic"
  functions :=
    { own := .ofList (Builtin.all.filterMap fun b => (genericRule? b).map fun r => (b.name, r)) }
  keywords := Keyword.standard
  quoting := .delimited "\"" "\"" reservedWords
  literals := .uniform LiteralStyle.plain
  pagination := .limitOffset
  typeNames := genericTypeName
  commands := Statement.all

/-- Unequal truth values are what an exclusive or accepts. Names and literals are escaped by the
client library of the database: names as it documents, between quotes and with each quote within
written twice, and literals by `LiteralStyle.marked`. -/
def postgres : Dialect :=
  generic.extend
    { name := "postgres"
      functions := .ofList
        [(Builtin.ilike.name, some (comparing "ilike")),
         ((Builtin.connective .xor).name, some (comparing "<>"))]
      keywords := fun
        | .join .outer => some "full outer join"
        | _ => none
      quoting := some (.delimited "\"" "\"" reservedWords)
      literals := some (.uniform LiteralStyle.marked) }

def mysql : Dialect :=
  generic.extend
    { name := "mysql"
      functions := .ofList
        [((Builtin.arithmetic .modulo).name, some (binary "mod" .multiplicative))]
      quoting := some (.delimited "`" "`" reservedWords)
      literals := some (.uniform LiteralStyle.backslashed)
      typeNames := fun
        | .number => some "double"
        | .string => some "varchar(255)"
        | .datetime => some "datetime"
        | _ => none }

def sqlserver : Dialect :=
  generic.extend
    { name := "sqlserver"
      functions := .ofList [((Builtin.connective .xor).name, none)]
      keywords := fun
        | .join .outer => some "full outer join"
        | .truth true => some "1"
        | .truth false => some "0"
        | _ => none
      quoting := some (.delimited "[" "]" reservedWords)
      pagination := some .top
      typeNames := fun
        | .boolean => some "bit"
        | .number => some "float"
        | .string => some "nvarchar(max)"
        | .datetime => some "datetime2"
        | _ => none }

/-- The dialects at hand from the start, in order. -/
def standard : List Dialect := [generic, postgres, mysql, sqlserver]

end SqlDraft.Dialect
