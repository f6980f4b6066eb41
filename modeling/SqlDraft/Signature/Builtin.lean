import SqlDraft.Signature.Basic

/-! The functions every dialect is expected to know, and the case-insensitive `like` that one
adds. -/

namespace SqlDraft

inductive Arithmetic where
  | add | subtract | multiply | divide | modulo
deriving DecidableEq, Repr

inductive Comparison where
  | equals | notEquals | less | lessOrEqual | greater | greaterOrEqual
deriving DecidableEq, Repr

inductive Connective where
  | and | or | xor
deriving DecidableEq, Repr

inductive Aggregate where
  | max | min | sum | avg | count
deriving DecidableEq, Repr

inductive Direction where
  | asc | desc
deriving DecidableEq, Repr

inductive Builtin where
  | arithmetic (op : Arithmetic)
  | comparison (op : Comparison)
  | connective (op : Connective)
  | not | like | member | isNull | isNotNull
  | aggregate (op : Aggregate)
  | countAll
  | order (direction : Direction)
  | ilike
deriving DecidableEq, Repr

namespace Builtin

/-- The functions registered from the start, in order. -/
def standard : List Builtin :=
  [.add, .subtract, .multiply, .divide, .modulo].map arithmetic ++
  [.equals, .notEquals, .less, .lessOrEqual, .greater, .greaterOrEqual].map comparison ++
  [.and, .or, .xor].map connective ++
  [not, like, member, isNull, isNotNull] ++
  [.max, .min, .sum, .avg, .count].map aggregate ++
  [countAll] ++
  [.asc, .desc].map order

def all : List Builtin := standard ++ [ilike]

theorem mem_all (b : Builtin) : b ∈ all := by
  cases b with
  | arithmetic op => cases op <;> decide
  | comparison op => cases op <;> decide
  | connective op => cases op <;> decide
  | aggregate op => cases op <;> decide
  | order d => cases d <;> decide
  | _ => decide

def name : Builtin → String
  | arithmetic .add => "add"
  | arithmetic .subtract => "subtract"
  | arithmetic .multiply => "multiply"
  | arithmetic .divide => "divide"
  | arithmetic .modulo => "modulo"
  | comparison .equals => "equals"
  | comparison .notEquals => "not_equals"
  | comparison .less => "less_than"
  | comparison .lessOrEqual => "less_than_or_equal"
  | comparison .greater => "greater_than"
  | comparison .greaterOrEqual => "greater_than_or_equal"
  | connective .and => "and"
  | connective .or => "or"
  | connective .xor => "xor"
  | not => "not"
  | like => "like"
  | member => "in"
  | isNull => "is_null"
  | isNotNull => "is_not_null"
  | aggregate .max => "max"
  | aggregate .min => "min"
  | aggregate .sum => "sum"
  | aggregate .avg => "avg"
  | aggregate .count => "count"
  | countAll => "count_all"
  | order .asc => "asc"
  | order .desc => "desc"
  | ilike => "ilike"

/-- A variable for any kind. -/
def anyKind : TypeVar := { id := "T" }

/-- A variable for what can be calculated with. -/
def summand : TypeVar := { id := "T", bound := [.number, .string] }

def numeric : TypeVar := { id := "T", bound := [.number] }

/-- A calculation has the type its arguments share, as a column if one of them is a column. -/
def sharedType (matched : List Ty) (bindings : Bindings) : Ty :=
  let t := (bindings.get? "T").elim .any Binding.type
  if matched.any Ty.isCollection then .collection t else t

def params : Builtin → List Ty
  | arithmetic _ => [.scalarOrColumn (.var summand), .scalarOrColumn (.var summand)]
  | comparison _ => [.scalarOrColumn (.var anyKind), .scalarOrColumn (.var anyKind)]
  | connective _ => [.scalarOrColumn (.concrete .boolean), .scalarOrColumn (.concrete .boolean)]
  | not => [.scalarOrColumn (.concrete .boolean)]
  | like | ilike => [.scalarOrColumn (.concrete .string), .scalarOrColumn (.concrete .string)]
  | member => [.scalarOrColumn (.var anyKind), .collection (.var anyKind)]
  | isNull | isNotNull => [.any]
  | aggregate .max | aggregate .min => [.collection (.var anyKind)]
  | aggregate .sum | aggregate .avg => [.collection (.var numeric)]
  | aggregate .count => [.collection .any]
  | countAll => []
  | order _ => [.collection (.var anyKind)]

def returns : Builtin → Returns
  | arithmetic _ => .computed sharedType
  | comparison _ | connective _ | not | like | ilike | member | isNull | isNotNull =>
    .fixed (.concrete .boolean)
  | aggregate .max | aggregate .min => .fixed (.var anyKind)
  | aggregate .sum | aggregate .avg => .fixed (.var numeric)
  | aggregate .count | countAll => .fixed (.concrete .number)
  | order _ => .fixed (.collection (.var anyKind))

def signature (b : Builtin) : Signature where
  name := b.name
  params := b.params
  returns := b.returns

end Builtin

end SqlDraft
