import SqlDraft.Dialect.Registry
import SqlDraft.Sql.Statement

/-! The text of a query in a dialect. -/

namespace SqlDraft

open Sql

/-- How the text of a statement is finished. -/
structure Finish where
  letterCase : LetterCase := .lower
  terminator : Bool := true
deriving DecidableEq, Repr

/-- What a text is finished with. -/
def Finish.tail (finish : Finish) : String := if finish.terminator then ";" else ""

/-- The text of a query that stands on its own. -/
def Query.compile (q : Query) (d : Dialect) (finish : Finish := {}) : Outcome String := do
  let ts ← q.write d []
  return ts.write finish.letterCase ++ if finish.terminator then ";" else ""

theorem Query.compile_eq_ok_iff {q : Query} {d : Dialect} {finish : Finish} {text : String} :
    q.compile d finish = .ok text ↔
      ∃ ts, q.write d [] = .ok ts ∧ ts.write finish.letterCase ++ finish.tail = text := by
  rw [← map_eq_ok_iff (f := fun ts : Tokens => ts.write finish.letterCase ++ finish.tail)]
  unfold compile
  cases q.write d [] <;> rfl

/-- The text of a query in the dialect registered under a name. -/
def Query.compileIn (q : Query) (r : Dialect.Registry) (name : String) (finish : Finish := {}) :
    Outcome String := do
  q.compile (← r.get name) finish

end SqlDraft
