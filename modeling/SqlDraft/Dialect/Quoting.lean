import SqlDraft.Text.Replace

/-! How names are written. A plain name stands as it is; any other name, and a reserved word, stands
between delimiters, and so does every name where the dialect wants it. A closing delimiter within
a name is written twice. -/

namespace SqlDraft

inductive QuotingMode where
  | asNeeded | always
deriving DecidableEq, Repr

def QuotingMode.name : QuotingMode → String
  | asNeeded => "as-needed"
  | always => "always"

structure Quoting where
  mode : QuotingMode
  reserved : List String
  quote : String → String

namespace Quoting

/-- The text with each closing delimiter doubled, between the delimiters. -/
def between (opener closer name : List Char) : List Char :=
  opener ++ Text.replaceAll closer (closer ++ closer) name ++ closer

def delimited (opener closer : String) (reserved : List String)
    (mode : QuotingMode := .asNeeded) : Quoting where
  mode
  reserved
  quote name := String.ofList (between opener.toList closer.toList name.toList)

/-- A letter of the English alphabet or an underscore. -/
def isInitial (c : Char) : Bool := c.isAlpha || c == '_'

/-- Such a letter, an underscore, or a digit. -/
def isInner (c : Char) : Bool := isInitial c || c.isDigit

/-- Names that need no delimiters unless they are reserved. -/
def isPlain (name : String) : Bool :=
  match name.toList with
  | [] => false
  | c :: rest => isInitial c && rest.all isInner

/-- A plain name counts as reserved whatever the case of its letters. -/
def isReserved (q : Quoting) (name : String) : Bool :=
  q.reserved.contains (name.map Char.toLower)

/-- The written form of a name. -/
def write (q : Quoting) (name : String) : String :=
  if q.mode = .always ∨ q.isReserved name = true ∨ isPlain name = false then q.quote name else name

end Quoting

end SqlDraft
