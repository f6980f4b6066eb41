import SqlDraft.Query.Step

/-! Handles, on which methods are called. A handle has a command and the node that is drafted, and
the node has a command of its own: methods go by that of the handle and leave the other as it is,
while a statement is written by that of the node. Each method gives a new handle. -/

namespace SqlDraft

structure Handle where
  command : Command
  node : Query

namespace Handle

/-- A handle on the node that goes by the command of the node. -/
def on (q : Query) : Handle := ⟨q.command, q⟩

/-! ## Where handles begin -/

def select (items : List Listed) : Outcome Handle := do
  return ⟨.statement .select, ← Query.select items⟩

def ofStatement (s : Statement) (t : Option Table := none) : Handle :=
  ⟨.statement s, .ofStatement s t⟩

def delete : Handle := ofStatement .delete

def insertInto (t : Table) : Handle := ofStatement .insert t

def update (t : Table) : Handle := ofStatement .update t

def create (t : Table) : Handle := ofStatement .create t

def drop (t : Table) : Handle := ofStatement .drop t

def inScope (s : Scope) : Handle := ⟨.scope s, .inScope s⟩

/-- The handle that the draft of a join is given. -/
def joining (j : Join) : Handle := ⟨.scope .join, .joining j⟩

/-- The select of the listed terms, all of which are evaluated first. -/
def selectTerms (items : List ListedTerm) : Outcome Handle := do
  return ⟨.statement .select, ← Query.selectTerms items⟩

/-! ## Methods -/

/-- Calls a method, which goes by the command of the handle. -/
def call (h : Handle) (method : Query → Command → Outcome Query) : Outcome Handle :=
  (method h.node h.command).map fun n => { h with node := n }

def step (h : Handle) (s : Step) : Outcome Handle := h.call fun q k => s.apply q k

/-! ## Drafts within drafts -/

/-- What a method looks at of a handle that a draft hands back: the command of the handle, and the
node but for the command of that. -/
def seen (h : Handle) : Query := { h.node with command := h.command }

/-- A draft that is given a handle, and hands back any other. -/
def drafted (build : Handle → Outcome Handle) (q : Query) : Outcome Query := (build (on q)).map seen

end Handle

end SqlDraft
