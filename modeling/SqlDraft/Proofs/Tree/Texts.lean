import SqlDraft.Sql.Statement

/-! What the string literals of a query say, taken out of it (`Query.blanked`) and listed in the
order in which a dialect writes them (`Query.texts`). Two queries are the same but for what their
literals say if nothing tells them apart once that is taken out. -/

namespace SqlDraft

open Sql

/-- The value with nothing of its text. -/
def Value.blanked : Value → Value
  | text _ => text ""
  | v => v

mutual

def Expr.blanked : Expr → Expr
  | .column c => .column c
  | .call head args => .call head (Expr.blankedEach args)
  | .literal v t => .literal v.blanked t
  | .list vs t => .list (vs.map Value.blanked) t
  | .subquery q => .subquery q.blanked
  | .star t => .star t

def Expr.blankedEach : List Expr → List Expr
  | [] => []
  | e :: es => e.blanked :: Expr.blankedEach es

def Expr.blankedRows : List (List Expr) → List (List Expr)
  | [] => []
  | es :: rest => Expr.blankedEach es :: Expr.blankedRows rest

def Cond.blanked : Cond → Cond
  | .predicate e => .predicate e.blanked
  | .joined j cs => .joined j (Cond.blankedEach cs)
  | .group c => .group c.blanked

def Cond.blankedEach : List Cond → List Cond
  | [] => []
  | c :: cs => c.blanked :: Cond.blankedEach cs

def Cond.blanked? : Option Cond → Option Cond
  | none => none
  | some c => some c.blanked

def Item.blanked : Item → Item
  | ⟨e, label⟩ => ⟨e.blanked, label⟩

def Item.blankedEach : List Item → List Item
  | [] => []
  | i :: rest => i.blanked :: Item.blankedEach rest

def Join.blanked : Join → Join
  | ⟨kind, table, condition, shared⟩ => ⟨kind, table, Cond.blanked? condition, shared⟩

def Join.blankedEach : List Join → List Join
  | [] => []
  | j :: rest => j.blanked :: Join.blankedEach rest

def Assignment.blanked : Assignment → Assignment
  | ⟨c, e⟩ => ⟨c, e.blanked⟩

def Assignment.blankedEach : List Assignment → List Assignment
  | [] => []
  | a :: rest => a.blanked :: Assignment.blankedEach rest

/-- The query with nothing of what its string literals say, at any depth. -/
def Query.blanked : Query → Query
  | ⟨command, table, isDistinct, projection, joins, filter, grouping, having, ordering, limit,
      offset, insertColumns, rows, assignments, ifExists, ifNotExists⟩ =>
    ⟨command, table, isDistinct, Item.blankedEach projection, Join.blankedEach joins,
      Cond.blanked? filter, Expr.blankedEach grouping, Cond.blanked? having,
      Expr.blankedEach ordering, limit, offset, insertColumns, Expr.blankedRows rows,
      Assignment.blankedEach assignments, ifExists, ifNotExists⟩

end

theorem Expr.blankedEach_eq_map (es : List Expr) : Expr.blankedEach es = es.map Expr.blanked := by
  induction es with
  | nil => rfl
  | cons e es ih => rw [Expr.blankedEach, ih, List.map_cons]

theorem Expr.blankedRows_eq_map (rows : List (List Expr)) :
    Expr.blankedRows rows = rows.map fun es => es.map Expr.blanked := by
  induction rows with
  | nil => rfl
  | cons es rows ih => rw [Expr.blankedRows, ih, Expr.blankedEach_eq_map, List.map_cons]

theorem Cond.blankedEach_eq_map (cs : List Cond) : Cond.blankedEach cs = cs.map Cond.blanked := by
  induction cs with
  | nil => rfl
  | cons c cs ih => rw [Cond.blankedEach, ih, List.map_cons]

theorem Item.blankedEach_eq_map (items : List Item) :
    Item.blankedEach items = items.map Item.blanked := by
  induction items with
  | nil => rfl
  | cons i items ih => rw [Item.blankedEach, ih, List.map_cons]

theorem Join.blankedEach_eq_map (joins : List Join) :
    Join.blankedEach joins = joins.map Join.blanked := by
  induction joins with
  | nil => rfl
  | cons j joins ih => rw [Join.blankedEach, ih, List.map_cons]

theorem Assignment.blankedEach_eq_map (assignments : List Assignment) :
    Assignment.blankedEach assignments = assignments.map Assignment.blanked := by
  induction assignments with
  | nil => rfl
  | cons a assignments ih => rw [Assignment.blankedEach, ih, List.map_cons]

/-! ## The texts in the order of writing -/

/-- The text of the string literal that a value of the type is written as, if it is. -/
def Value.text? (type : Ty) : Value → Option String
  | text v => some v
  | date (some i) =>
    some (String.ofList (i.textAs ((Site.temporal? type).getD .datetime)))
  | _ => none

/-- What a rule writes of the arguments of a call, in order. The one template that the dialects at
hand have writes none. -/
def Rule.written {α : Type} (args : List α) : Rule → List α
  | between .. | membership _ => args.take 2
  | before _ | after _ => args.take 1
  | call _ => args
  | custom _ => []

/-- A rule writes the arguments of a call or leaves them out, whatever they are. -/
theorem Rule.map_written {α β : Type} (g : α → β) (args : List α) (r : Rule) :
    (r.written args).map g = r.written (args.map g) := by
  cases r <;> simp [Rule.written]

theorem Rule.mem_of_mem_written {α : Type} {args : List α} {r : Rule} {a : α}
    (h : a ∈ r.written args) :
    a ∈ args := by
  cases r with
  | call => exact h
  | custom => cases h
  | _ => exact List.mem_of_mem_take h

/-- The texts in each part of a query. -/
structure Texts where
  projection : List String
  joins : List String
  filter : List String
  grouping : List String
  having : List String
  ordering : List String
  rows : List String
  assignments : List String

/-- The texts in the parts that a statement writes. -/
def Texts.within (t : Texts) : Command → List String
  | .statement .select =>
    t.projection ++ t.joins ++ t.filter ++ t.grouping ++ t.having ++ t.ordering
  | .statement .insert => t.rows
  | .statement .update => t.assignments ++ t.filter
  | .statement .delete => t.filter
  | _ => []

mutual

def Expr.texts (d : Dialect) : Expr → List String
  | .column _ | .star _ => []
  | .call head args =>
    ((d.rule? head.function).elim [] (Rule.written (Expr.textsEach d args))).flatten
  | .literal v t => (v.text? t).toList
  | .list vs t => vs.filterMap (Value.text? t)
  | .subquery q => q.texts d

def Expr.textsEach (d : Dialect) : List Expr → List (List String)
  | [] => []
  | e :: es => e.texts d :: Expr.textsEach d es

def Expr.textsRows (d : Dialect) : List (List Expr) → List (List (List String))
  | [] => []
  | es :: rest => Expr.textsEach d es :: Expr.textsRows d rest

def Cond.texts (d : Dialect) : Cond → List String
  | .predicate e => e.texts d
  | .joined _ cs => (Cond.textsEach d cs).flatten
  | .group c => c.texts d

def Cond.textsEach (d : Dialect) : List Cond → List (List String)
  | [] => []
  | c :: cs => c.texts d :: Cond.textsEach d cs

def Cond.texts? (d : Dialect) : Option Cond → List String
  | none => []
  | some c => c.texts d

def Item.texts (d : Dialect) : Item → List String
  | ⟨e, _⟩ => e.texts d

def Item.textsEach (d : Dialect) : List Item → List (List String)
  | [] => []
  | i :: rest => i.texts d :: Item.textsEach d rest

def Join.texts (d : Dialect) : Join → List String
  | ⟨_, _, condition, _⟩ => Cond.texts? d condition

def Join.textsEach (d : Dialect) : List Join → List (List String)
  | [] => []
  | j :: rest => j.texts d :: Join.textsEach d rest

def Assignment.texts (d : Dialect) : Assignment → List String
  | ⟨_, e⟩ => e.texts d

def Assignment.textsEach (d : Dialect) : List Assignment → List (List String)
  | [] => []
  | a :: rest => a.texts d :: Assignment.textsEach d rest

/-- What the string literals of a query say, in the order in which the dialect writes them. -/
def Query.texts (d : Dialect) : Query → List String
  | ⟨command, _, _, projection, joins, filter, grouping, having, ordering, _, _, _, rows,
      assignments, _, _⟩ =>
    Texts.within
      { projection := (Item.textsEach d projection).flatten
        joins := (Join.textsEach d joins).flatten
        filter := Cond.texts? d filter
        grouping := (Expr.textsEach d grouping).flatten
        having := Cond.texts? d having
        ordering := (Expr.textsEach d ordering).flatten
        rows := (Expr.textsRows d rows).flatten.flatten
        assignments := (Assignment.textsEach d assignments).flatten } command

end

/-- The texts in each part of a query, those of an item after those of the item before. -/
def Query.textParts (q : Query) (d : Dialect) : Texts where
  projection := (Item.textsEach d q.projection).flatten
  joins := (Join.textsEach d q.joins).flatten
  filter := Cond.texts? d q.filter
  grouping := (Expr.textsEach d q.grouping).flatten
  having := Cond.texts? d q.having
  ordering := (Expr.textsEach d q.ordering).flatten
  rows := (Expr.textsRows d q.rows).flatten.flatten
  assignments := (Assignment.textsEach d q.assignments).flatten

theorem Query.texts_eq (q : Query) (d : Dialect) :
    q.texts d = (q.textParts d).within q.command := by
  cases q
  rw [Query.texts]
  rfl

theorem Expr.textsEach_eq_map (d : Dialect) (es : List Expr) :
    Expr.textsEach d es = es.map fun e => e.texts d := by
  induction es with
  | nil => rfl
  | cons e es ih => rw [Expr.textsEach, ih, List.map_cons]

theorem Expr.textsRows_eq_map (d : Dialect) (rows : List (List Expr)) :
    Expr.textsRows d rows = rows.map fun es => es.map fun e => e.texts d := by
  induction rows with
  | nil => rfl
  | cons es rows ih => rw [Expr.textsRows, ih, Expr.textsEach_eq_map, List.map_cons]

theorem Cond.textsEach_eq_map (d : Dialect) (cs : List Cond) :
    Cond.textsEach d cs = cs.map fun c => c.texts d := by
  induction cs with
  | nil => rfl
  | cons c cs ih => rw [Cond.textsEach, ih, List.map_cons]

theorem Item.textsEach_eq_map (d : Dialect) (items : List Item) :
    Item.textsEach d items = items.map fun i => i.texts d := by
  induction items with
  | nil => rfl
  | cons i items ih => rw [Item.textsEach, ih, List.map_cons]

theorem Join.textsEach_eq_map (d : Dialect) (joins : List Join) :
    Join.textsEach d joins = joins.map fun j => j.texts d := by
  induction joins with
  | nil => rfl
  | cons j joins ih => rw [Join.textsEach, ih, List.map_cons]

theorem Assignment.textsEach_eq_map (d : Dialect) (assignments : List Assignment) :
    Assignment.textsEach d assignments = assignments.map fun a => a.texts d := by
  induction assignments with
  | nil => rfl
  | cons a assignments ih => rw [Assignment.textsEach, ih, List.map_cons]

end SqlDraft
