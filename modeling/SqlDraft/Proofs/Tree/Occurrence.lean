import SqlDraft.Dialect.Standard
import SqlDraft.Proofs.Tree.Induction
import SqlDraft.Query.Condition
import SqlDraft.Sql.Statement

/-! Where expressions stand in a query. A query holds expressions in its clauses, an expression
holds the arguments of its calls, and a query within it holds expressions in turn; each of these is
written at the site of the statement that it stands in directly, which has the tables of that
statement for its own and those of the statements around it besides (`Expr.Contains`). -/

namespace SqlDraft

open Sql

mutual

/-- The expressions that a condition joins. -/
def Cond.exprs : Cond → List Expr
  | .predicate e => [e]
  | .joined _ cs => Cond.exprsEach cs
  | .group c => c.exprs

def Cond.exprsEach : List Cond → List Expr
  | [] => []
  | c :: cs => c.exprs ++ Cond.exprsEach cs

end

/-- The expressions of a condition, if there is one. -/
def Cond.exprs? (c : Option Cond) : List Expr := c.toList.flatMap Cond.exprs

/-- The expressions in the clauses of a query, but for what these hold themselves. -/
def Query.exprs (q : Query) : List Expr :=
  q.projection.map Item.expr ++ q.joins.flatMap (fun j => Cond.exprs? j.condition) ++
    Cond.exprs? q.filter ++ q.grouping ++ Cond.exprs? q.having ++ q.ordering ++ q.rows.flatten ++
    q.assignments.map Assignment.value

/-- In the first expression, written at the first site, stands the second one, written at the second
site. -/
inductive Expr.Contains : Site → Expr → Site → Expr → Prop
  | self (s : Site) (e : Expr) : Contains s e s e
  | argument {s s' : Site} {head : CallHead} {args : List Expr} {a x : Expr} (ha : a ∈ args)
      (h : Contains s a s' x) : Contains s (.call head args) s' x
  | subquery {s s' : Site} {q : Query} {e x : Expr} (he : e ∈ q.exprs)
      (h : Contains (q.site s.dialect (s.own ++ s.outer)) e s' x) : Contains s (.subquery q) s' x

/-- In the query, written within statements that have the outer tables, stands the expression. -/
def Query.Contains (d : Dialect) (outer : List Table) (q : Query) (s : Site) (x : Expr) : Prop :=
  ∃ e ∈ q.exprs, e.Contains (q.site d outer) s x

/-- The table that an expression refers to, if it is a column or all columns of one. -/
def Expr.table? : Expr → Option Table
  | .column c => some c.table
  | .star t => some t
  | _ => none

theorem Cond.exprsEach_eq_flatMap (cs : List Cond) : Cond.exprsEach cs = cs.flatMap Cond.exprs := by
  induction cs with
  | nil => rfl
  | cons c cs ih => rw [Cond.exprsEach, ih, List.flatMap_cons]

theorem Cond.mem_exprs?_iff {c : Option Cond} {e : Expr} :
    e ∈ Cond.exprs? c ↔ ∃ d ∈ c, e ∈ d.exprs := by
  rw [Cond.exprs?, List.mem_flatMap]
  simp

theorem Cond.mem_exprs_joined_iff {j : Joiner} {cs : List Cond} {e : Expr} :
    e ∈ (Cond.joined j cs).exprs ↔ ∃ c ∈ cs, e ∈ c.exprs := by
  rw [Cond.exprs, Cond.exprsEach_eq_flatMap, List.mem_flatMap]

/-- Adding a condition adds its expressions. -/
theorem Cond.mem_exprs_combine_iff {existing : Option Cond} {j : Joiner} {added : Cond} {e : Expr} :
    e ∈ (Cond.combine existing j added).exprs ↔ e ∈ Cond.exprs? existing ∨ e ∈ added.exprs := by
  unfold Cond.combine
  split
  · simp [Cond.exprs?]
  · split <;> simp [Cond.exprs?, Cond.exprs, Cond.exprsEach_eq_flatMap]
  · simp [Cond.exprs?, Cond.exprs, Cond.exprsEach_eq_flatMap]

theorem Cond.forall_exprs_combine {P : Expr → Prop} {existing : Option Cond} {j : Joiner}
    {added : Cond} (h : ∀ c ∈ existing, ∀ e ∈ c.exprs, P e) (hadded : ∀ e ∈ added.exprs, P e) :
    ∀ e ∈ (Cond.combine existing j added).exprs, P e := by
  intro e he
  rcases Cond.mem_exprs_combine_iff.mp he with he | he
  · obtain ⟨c, hc, he⟩ := Cond.mem_exprs?_iff.mp he
    exact h c hc e he
  · exact hadded e he

theorem Query.mem_exprs_iff {q : Query} {e : Expr} :
    e ∈ q.exprs ↔ (∃ i ∈ q.projection, i.expr = e) ∨
      (∃ j ∈ q.joins, e ∈ Cond.exprs? j.condition) ∨ e ∈ Cond.exprs? q.filter ∨ e ∈ q.grouping ∨
      e ∈ Cond.exprs? q.having ∨ e ∈ q.ordering ∨ (∃ row ∈ q.rows, e ∈ row) ∨
      ∃ a ∈ q.assignments, a.value = e := by
  simp only [Query.exprs, List.mem_append, List.mem_map, List.mem_flatMap, List.mem_flatten,
    or_assoc]

/-! ## Induction on what stands in an expression -/

theorem Tree.Holds.exprs {P : Expr → Prop} {q : Query}
    (h : Tree.Holds P (fun c => ∀ e ∈ c.exprs, P e) q) : ∀ e ∈ q.exprs, P e := by
  intro e he
  have condition {c : Option Cond} (hc : ∀ d ∈ c, ∀ e ∈ d.exprs, P e) (he : e ∈ Cond.exprs? c) :
      P e := by
    obtain ⟨d, hd, he⟩ := Cond.mem_exprs?_iff.mp he
    exact hc d hd e he
  rcases Query.mem_exprs_iff.mp he with ⟨i, hi, rfl⟩ | ⟨j, hj, he⟩ | he | he | he | he |
    ⟨row, hrow, he⟩ | ⟨a, ha, rfl⟩
  · exact h.projection i hi
  · exact condition (h.joins j hj) he
  · exact condition h.filter he
  · exact h.grouping e he
  · exact condition h.having he
  · exact h.ordering e he
  · exact h.rows row hrow e he
  · exact h.assignments a ha

/-- A property of every expression that has it if the arguments, or the expressions of the query, in
it do. -/
theorem Expr.induction {P : Expr → Prop} (column : ∀ c, P (.column c)) (star : ∀ t, P (.star t))
    (literal : ∀ v t, P (.literal v t)) (list : ∀ vs t, P (.list vs t))
    (call : ∀ head args, (∀ a ∈ args, P a) → P (.call head args))
    (subquery : ∀ q : Query, (∀ e ∈ q.exprs, P e) → P (.subquery q)) (e : Expr) : P e := by
  have steps : Tree.Steps P (fun c => ∀ e ∈ c.exprs, P e) (fun q => ∀ e ∈ q.exprs, P e) :=
    { column, star, literal, list, call, subquery
      predicate := fun _ h => List.forall_mem_singleton.mpr h
      joined := fun _ _ h e he =>
        let ⟨c, hc, he⟩ := Cond.mem_exprs_joined_iff.mp he
        h c hc e he
      group := fun _ h => h
      query := fun _ h => h.exprs }
  exact steps.expr e

/-! ## What holds of all that stands in an expression -/

/-- The property holds of the expression and of all that stands in it. -/
def Expr.Everywhere (P : Expr → Prop) (e : Expr) : Prop := ∀ s s' x, e.Contains s s' x → P x

/-- The property holds of all that stands in the query. -/
def Query.Everywhere (P : Expr → Prop) (q : Query) : Prop := ∀ e ∈ q.exprs, e.Everywhere P

/-- What stands in an expression does so wherever that is written. -/
theorem Expr.Contains.elsewhere {s s' : Site} {e x : Expr} (h : e.Contains s s' x) (t : Site) :
    ∃ t', e.Contains t t' x := by
  induction h generalizing t with
  | self s e => exact ⟨t, .self t e⟩
  | argument ha _ ih =>
    obtain ⟨t', h⟩ := ih t
    exact ⟨t', .argument ha h⟩
  | @subquery _ _ q _ _ he _ ih =>
    obtain ⟨t', h⟩ := ih (q.site t.dialect (t.own ++ t.outer))
    exact ⟨t', .subquery he h⟩

variable {P : Expr → Prop}

namespace Expr

theorem Everywhere.self {e : Expr} (h : e.Everywhere P) : P e :=
  h ⟨.generic, [], []⟩ ⟨.generic, [], []⟩ e (.self _ e)

theorem everywhere_column_iff {c : Column} : (column c).Everywhere P ↔ P (column c) :=
  ⟨Everywhere.self, fun h _ _ _ hx => by cases hx; exact h⟩

theorem everywhere_star_iff {t : Table} : (star t).Everywhere P ↔ P (star t) :=
  ⟨Everywhere.self, fun h _ _ _ hx => by cases hx; exact h⟩

theorem everywhere_literal_iff {v : Value} {t : Ty} :
    (literal v t).Everywhere P ↔ P (literal v t) :=
  ⟨Everywhere.self, fun h _ _ _ hx => by cases hx; exact h⟩

theorem everywhere_list_iff {vs : List Value} {t : Ty} :
    (list vs t).Everywhere P ↔ P (list vs t) :=
  ⟨Everywhere.self, fun h _ _ _ hx => by cases hx; exact h⟩

theorem everywhere_call_iff {head : CallHead} {args : List Expr} :
    (call head args).Everywhere P ↔ P (call head args) ∧ ∀ a ∈ args, a.Everywhere P := by
  refine ⟨fun h => ⟨h.self, fun a ha s s' x hx => h s s' x (.argument ha hx)⟩,
    fun h s s' x hx => ?_⟩
  cases hx with
  | self => exact h.1
  | argument ha hx => exact h.2 _ ha _ _ _ hx

theorem everywhere_subquery_iff {q : Query} :
    (subquery q).Everywhere P ↔ P (subquery q) ∧ q.Everywhere P := by
  refine ⟨fun h => ⟨h.self, fun e he s s' x hx => ?_⟩, fun h s s' x hx => ?_⟩
  · obtain ⟨t', ht⟩ := hx.elsewhere (q.site .generic [])
    exact h ⟨.generic, [], []⟩ t' x (.subquery he ht)
  · cases hx with
    | self => exact h.1
    | subquery he hx => exact h.2 _ he _ _ _ hx

end Expr

end SqlDraft
