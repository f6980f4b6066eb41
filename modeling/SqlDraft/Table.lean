import SqlDraft.Catalog
import SqlDraft.Fault
import SqlDraft.Ty.Basic

/-! Tables and their columns. Every declaration makes a table of its own: two tables of one name
and the same columns differ by their serial, so that a query can join a table with its double. -/

namespace SqlDraft

/-- A table, in a database or not. Columns are listed with the type of their data; a table without
a list of columns has any column asked for. -/
structure Table where
  serial : Nat
  name : String
  database : Option String := none
  columns : Option (Catalog Ty) := none
deriving DecidableEq

/-- A column of a table. Its own type is a collection of its data. -/
structure Column where
  table : Table
  name : String
  data : Ty
deriving DecidableEq

namespace Column

/-- The column with the type given, or with a collection of it if it is none. -/
def ofType (table : Table) (name : String) (type : Ty) : Column := ⟨table, name, type.inner⟩

def type (c : Column) : Ty := .collection c.data

/-- The columns belong to one table and have one name and the same type. -/
def same (c d : Column) : Bool := d.table == c.table && d.name == c.name && d.type.same c.type

end Column

namespace Table

/-- A table with columns of the types given. -/
def declare (serial : Nat) (name : String) (database : Option String)
    (schema : Option (Catalog Ty)) : Table where
  serial
  name
  database
  columns := schema.map (Catalog.map Ty.inner)

def qualifiedName (t : Table) : String :=
  match t.database with
  | some database => database ++ "." ++ t.name
  | none => t.name

def column (t : Table) (name : String) : Outcome Column :=
  match t.columns with
  | none => .ok ⟨t, name, .any⟩
  | some columns =>
    match columns.get? name with
    | some data => .ok ⟨t, name, data⟩
    | none => .error (.unknownColumn t.qualifiedName name)

/-- The columns listed, in order. -/
def declaredColumns (t : Table) : List Column :=
  match t.columns with
  | none => []
  | some columns => columns.entries.map fun e => ⟨t, e.1, e.2⟩

theorem column_table {t : Table} {name : String} {c : Column} (h : t.column name = .ok c) :
    c.table = t ∧ c.name = name := by
  unfold column at h
  split at h
  · cases h; exact ⟨rfl, rfl⟩
  · split at h
    · cases h; exact ⟨rfl, rfl⟩
    · cases h

end Table

end SqlDraft
