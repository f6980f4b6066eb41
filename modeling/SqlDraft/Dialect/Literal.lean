import SqlDraft.Kind
import SqlDraft.Text.Replace

/-! How texts are written as literals, and days and times, which come as texts. The client library
of Postgres escapes literals on its own; `LiteralStyle.marked` states what it is documented to do,
and all that is said of literals there rests on that. -/

namespace SqlDraft

structure LiteralStyle where
  string : String → String
  temporal : Temporal → String → String

namespace LiteralStyle

/-- The text between two quotes. -/
def quoted (body : List Char) : List Char := '\'' :: body ++ ['\'']

def doubleQuotes : List Char → List Char := Text.replaceAll ['\''] ['\'', '\'']

def doubleBackslashes : List Char → List Char := Text.replaceAll ['\\'] ['\\', '\\']

/-- A quote within a literal is written twice. -/
def plain (s : String) : String := String.ofList (quoted (doubleQuotes s.toList))

/-- A quote is written twice, and so is a backslash, which would otherwise change what follows. -/
def backslashed (s : String) : String :=
  String.ofList (quoted (doubleQuotes (doubleBackslashes s.toList)))

/-- Backslashes stand for themselves unless the literal is marked as one in which they are written
twice; it is marked when it has one. So the escaping of literals in the client library is
documented, but for a blank in front of the mark, which is taken off. -/
def marked (s : String) : String :=
  if '\\' ∈ s.toList then "E" ++ backslashed s else plain s

/-- The style in which days and times are written like other texts. -/
def uniform (string : String → String) : LiteralStyle := ⟨string, fun _ text => string text⟩

/-- Texts between delimiters of their own, with the replacements made one after another. -/
def delimited (opener closer : String) (escapes : List (String × String)) (s : String) : String :=
  let escaped := escapes.foldl (fun t e => Text.replaceAll e.1.toList e.2.toList t) s.toList
  opener ++ String.ofList escaped ++ closer

/-- Days and times between delimiters, with the word for their kind in front or not. -/
def delimitedTemporal (opener closer : String) (withKind : Bool) (t : Temporal) (text : String) :
    String :=
  (if withKind then t.name ++ " " else "") ++ opener ++ text ++ closer

end LiteralStyle

end SqlDraft
