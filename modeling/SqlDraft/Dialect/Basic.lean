import SqlDraft.Catalog
import SqlDraft.Dialect.Keyword
import SqlDraft.Dialect.Literal
import SqlDraft.Dialect.Quoting
import SqlDraft.Dialect.Rule

/-! A dialect of the query language, and dialects drawn up as changes to another. Rules, keywords
and names of types are changed one by one; every other part is replaced as a whole.

The rules of a dialect are a record, and a record may be made on top of another one, whose entries
it then answers with where it has none of its own. What every record of the host language answers
with is left out: such names are taken not to be names of functions. -/

namespace SqlDraft

/-- How the number of rows is limited. -/
inductive Pagination where
  | limitOffset | top | fetchFirst
deriving DecidableEq, Repr

namespace Pagination

def all : List Pagination := [limitOffset, top, fetchFirst]

def name : Pagination → String
  | limitOffset => "limit-offset"
  | top => "top"
  | fetchFirst => "fetch-first"

def ofName? (s : String) : Option Pagination := all.find? fun p => p.name == s

end Pagination

/-- A record of rules, with those of the records that it is made on top of. -/
structure Rules where
  own : Catalog Rule
  inherited : Catalog Rule := ∅

/-- The rule that the record answers with for the name of a function. -/
def Rules.get? (r : Rules) (function : String) : Option Rule :=
  (r.own.get? function).or (r.inherited.get? function)

structure Dialect where
  name : String
  functions : Rules
  keywords : Keyword → String
  quoting : Quoting
  literals : LiteralStyle
  pagination : Pagination
  typeNames : Kind → String
  commands : List Statement

/-- Changes to a dialect. A function listed without a rule is taken away. -/
structure Changes where
  name : String
  functions : Catalog (Option Rule) := ∅
  keywords : Keyword → Option String := fun _ => none
  quoting : Option Quoting := none
  literals : Option LiteralStyle := none
  pagination : Option Pagination := none
  typeNames : Kind → Option String := fun _ => none
  commands : Option (List Statement) := none

theorem Rules.get?_of_inherited_empty {r : Rules} (h : r.inherited = ∅) (function : String) :
    r.get? function = r.own.get? function := by
  rw [get?, h, Catalog.get?_empty, Option.or_none]

namespace Dialect

def rule? (d : Dialect) (function : String) : Option Rule := d.functions.get? function

/-- One change to the rules. -/
def changeRule (functions : Catalog Rule) (function : String) : Option Rule → Catalog Rule
  | some rule => functions.insert function rule
  | none => functions.erase function

/-- The dialect with the changes made. Of the rules only those that the base has as entries of its
own are taken over. -/
def extend (base : Dialect) (o : Changes) : Dialect where
  name := o.name
  functions :=
    { own := o.functions.entries.foldl (fun fs e => changeRule fs e.1 e.2) base.functions.own }
  keywords k := (o.keywords k).getD (base.keywords k)
  quoting := o.quoting.getD base.quoting
  literals := o.literals.getD base.literals
  pagination := o.pagination.getD base.pagination
  typeNames k := (o.typeNames k).getD (base.typeNames k)
  commands := o.commands.getD base.commands

theorem get?_changeRule (fs : Catalog Rule) (n m : String) (r : Option Rule) :
    (changeRule fs n r).get? m = if m = n then r else fs.get? m := by
  cases r with
  | none => exact Catalog.get?_erase fs n m
  | some r => exact Catalog.get?_insert fs n m r

theorem get?_changeRules (l : List (String × Option Rule)) (fs : Catalog Rule) (m : String)
    (h : (l.map Prod.fst).Nodup) :
    (l.foldl (fun fs e => changeRule fs e.1 e.2) fs).get? m = (l.lookup m).getD (fs.get? m) := by
  induction l generalizing fs with
  | nil => rfl
  | cons e rest ih =>
    obtain ⟨n, r⟩ := e
    simp only [List.map_cons, List.nodup_cons] at h
    rw [List.foldl_cons, ih _ h.2, get?_changeRule, Catalog.lookup_cons_eq]
    by_cases hm : m = n
    · have : rest.lookup m = none := by
        rw [← Option.not_isSome_iff_eq_none, Catalog.lookup_isSome_iff]
        exact hm ▸ h.1
      simp [hm, hm ▸ this]
    · simp [hm]

/-- A function is written as the changes say, or by the rule that the base has itself where they say
nothing. -/
theorem rule?_extend (base : Dialect) (o : Changes) (function : String) :
    (base.extend o).rule? function =
      (o.functions.get? function).getD (base.functions.own.get? function) := by
  rw [rule?, Rules.get?_of_inherited_empty rfl]
  exact get?_changeRules _ _ _ o.functions.nodup

end Dialect

end SqlDraft
