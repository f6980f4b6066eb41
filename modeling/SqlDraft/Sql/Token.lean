import SqlDraft.Text.Upper

/-! The text of a statement as a list of tokens. A token is either a word of the language, whose
case may be changed on writing, or it is written as it stands: a name, a literal, a number, or
what stands between them. -/

namespace SqlDraft

inductive LetterCase where
  | lower | upper
deriving DecidableEq, Repr

namespace Sql

inductive Token where
  | word (chars : String)
  | name (chars : String)
  | literal (chars : String)
  | number (chars : String)
  | mark (chars : String)
deriving DecidableEq, Repr

/-- The written form of a token. Words are kept as they are unless upper case is asked for. -/
def Token.write (letterCase : LetterCase) : Token → String
  | word s =>
    match letterCase with
    | .lower => s
    | .upper => SqlDraft.Text.upper s
  | name s | literal s | number s | mark s => s

/-- A text not yet written. -/
abbrev Tokens := List Token

namespace Tokens

def write (letterCase : LetterCase) (ts : Tokens) : String :=
  String.join (ts.map (Token.write letterCase))

def space : Token := .mark " "

def comma : Tokens := [.mark ", "]

/-- The tokens between parentheses. -/
def enclosed (ts : Tokens) : Tokens := .mark "(" :: ts ++ [.mark ")"]

/-- The parts with the separator between each two. -/
def separated (separator : Tokens) (parts : List Tokens) : Tokens := separator.intercalate parts

/-- The parts with a space between each two. -/
def spaced (parts : List Tokens) : Tokens := separated [space] parts

/-- The parts with a comma between each two. -/
def listed (parts : List Tokens) : Tokens := separated comma parts

end Tokens

end Sql

end SqlDraft
