import SqlDraft.Sql.Token

/-! How a dialect writes the call of a function. Operators bind by precedence, the higher the
tighter. An operator that does not chain has an operand of its own precedence enclosed on either
side.

Precedences are rational, so that there is room between any two. Numbers that are no finite ones are
left out: no rule has an infinite precedence, or one that is not a number and so compares with
none. -/

namespace SqlDraft

inductive Rule where
  | between (operator : String) (precedence : Rat) (alone : Option Bool := none)
  | before (operator : String)
  | after (operator : String)
  | call (name : String)
  | membership (operator : String)
  | custom (write : List Sql.Tokens → Sql.Tokens)

namespace Rule

/-- An operator between operands that does not chain with its equals. -/
def comparing (operator : String) (precedence : Rat) : Rule :=
  .between operator precedence (some true)

/-- The precedence of an operator that stands between its operands. -/
def precedence? : Rule → Option Rat
  | between _ p _ => some p
  | _ => none

end Rule

/-- A piece of the written form of a call. -/
inductive Piece where
  | text (chars : String)
  | word (chars : String)
  | argument (index : Int)
  | arguments (separator : String)
deriving DecidableEq, Repr

namespace Piece

/-- The piece for the arguments given; an argument that is not there is shown as missing. -/
def fill (args : List Sql.Tokens) : Piece → Sql.Tokens
  | text s => [.mark s]
  | word s => [.word s]
  | argument i => (i.toNat?.bind fun n => args[n]?).getD [.mark "<none>"]
  | arguments separator => Sql.Tokens.separated [.mark separator] args

end Piece

/-- The rule that writes a call by the pieces of a template. -/
def Rule.template (pieces : List Piece) : Rule :=
  .custom fun args => pieces.flatMap (Piece.fill args)

end SqlDraft
