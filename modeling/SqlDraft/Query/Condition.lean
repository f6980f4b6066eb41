import SqlDraft.Query.Start

/-! Adding conditions to a draft: of its rows, of its groups, and of its last join. A condition is
an expression that is true or false, or a group drafted in a scope of its own.

A method goes by the command of the handle it is called on, be it to refuse, to choose the clause or
to name itself in a fault. That command is given to the method, and is the one of the node where
none is given (`k`). -/

namespace SqlDraft

/-- What a condition is made from. A draft is handed the empty scope, and is expected to hand it
back with conditions added. -/
inductive Criterion where
  | operand (o : Operand)
  | draft (build : Query → Outcome Query)

/-- Whether a value of the type can decide a condition. -/
def Ty.decides (t : Ty) : Bool := t.inner = .any || t.inner = .concrete .boolean

/-- The condition for a clause, asked for by the method. -/
def Criterion.condition (m : Method) (clause : Clause) : Criterion → Outcome Cond
  | operand o => do
    let e ← o.toExpr m.name
    if e.type.decides then return .predicate e
    else throw (.mismatch m.name (.count 0) "Boolean" e.type.describe)
  | draft build => do
    let result ← build (.inScope (.condition clause))
    if result.command ≠ .scope (.condition clause) then
      throw (.argument m.name (.foreignScope clause.name))
    match result.filter with
    | some c => return .group c
    | none => throw (.argument m.name .emptyGroup)

/-- Adds a condition to those there are. Conditions joined by the same word stay in one row; any
others are taken together first. -/
def Cond.combine (existing : Option Cond) (j : Joiner) (added : Cond) : Cond :=
  match existing with
  | none => added
  | some (.joined i operands) =>
    if i = j then .joined j (operands ++ [added])
    else .joined j [.joined i operands, added]
  | some c => .joined j [c, added]

namespace Command

/-- Refuses a method that a draft for the command does not have. -/
def require (k : Command) (m : Method) : Outcome Unit :=
  if k.admits m then .ok () else .error (.operation k.name m.name .notAllowed)

/-- Whether conditions for the clause are kept there. Scopes keep theirs in place of those of
rows. -/
def holds (k : Command) : Clause → Bool
  | .filter => true
  | .having => k = .statement .select
  | .pairing => k = .statement .select || k = .scope .join

end Command

namespace Query

/-- Changes the last join, which has to be of a kind that takes conditions. -/
def changeLastJoin (q : Query) (m : Method) (change : Join → Outcome Join)
    (k : Command := q.command) : Outcome Query :=
  match q.joins.getLast? with
  | none => .error (.operation k.name m.name .noJoin)
  | some last =>
    if last.kind = .cross then .error (.operation k.name m.name .crossJoin)
    else (change last).map fun j => { q with joins := q.joins.dropLast ++ [j] }

/-- Adds a condition to a clause. -/
def restrict (q : Query) (clause : Clause) (link : Link) (c : Criterion)
    (k : Command := q.command) : Outcome Query := do
  let m : Method := .condition clause link
  k.require m
  let added ← c.condition m clause
  match clause, k.holds clause with
  | .having, true => return { q with having := some (.combine q.having link.joiner added) }
  | .pairing, true =>
    q.changeLastJoin m (k := k) fun j =>
      if j.shared.isSome then .error (.operation k.name m.name .onAndUsing)
      else .ok { j with condition := some (.combine j.condition link.joiner added) }
  | _, _ => return { q with filter := some (.combine q.filter link.joiner added) }

/-- Joins the last joined table on columns that both sides have. -/
def share (q : Query) (columns : List String) (k : Command := q.command) : Outcome Query := do
  k.require .shared
  if columns.isEmpty then throw (.argument Method.shared.name .noSharedColumn)
  q.changeLastJoin .shared (k := k) fun j =>
    if j.condition.isSome then .error (.operation k.name Method.shared.name .onAndUsing)
    else .ok { j with shared := some (j.shared.getD [] ++ columns) }

/-- Joins a table. A draft is handed the join, and is expected to hand it back finished. -/
def join (q : Query) (kind : JoinKind) (t : Table)
    (build : Option (Query → Outcome Query) := none) (k : Command := q.command) :
    Outcome Query := do
  let m : Method := .join kind
  k.require m
  let plain : Join := { kind, table := t }
  match build with
  | none => return { q with joins := q.joins ++ [plain] }
  | some build =>
    let result ← build (.joining plain)
    match result.command, result.joins with
    | .scope .join, j :: _ => return { q with joins := q.joins ++ [j] }
    | _, _ => throw (.argument m.name (.foreignScope Scope.join.name))

end Query

end SqlDraft
