import SqlDraft.Query.Basic

/-! Where drafts begin. -/

namespace SqlDraft

/-- What a select is asked to list: every column of a table, an expression under a name of its own,
or anything that may stand as an expression. -/
inductive Listed where
  | star (t : Table)
  | labelled (e : Expr) (label : String)
  | operand (o : Operand)

/-- The item listed. A list of values cannot be one. -/
def Listed.item : Listed → Outcome Item
  | star t => .ok ⟨.star t, none⟩
  | labelled e label => .ok ⟨e, some label⟩
  | operand o => do
    match ← o.toExpr "select" with
    | .list .. => throw (.argument "select" .listProjected)
    | e => return ⟨e, none⟩

namespace Query

def ofStatement (s : Statement) (t : Option Table := none) : Query :=
  { command := .statement s, table := t }

/-- Lists the items, or every column if there are none. -/
def select (items : List Listed) : Outcome Query := do
  return { ofStatement .select with projection := ← items.mapM Listed.item }

def delete : Query := ofStatement .delete

def insertInto (t : Table) : Query := ofStatement .insert t

def update (t : Table) : Query := ofStatement .update t

def create (t : Table) : Query := ofStatement .create t

def drop (t : Table) : Query := ofStatement .drop t

/-- An empty draft of a condition or a join. -/
def inScope (s : Scope) : Query := { command := .scope s }

/-- The draft in which a join of the table is finished. -/
def joining (j : Join) : Query := { inScope .join with table := some j.table, joins := [j] }

end Query

end SqlDraft
