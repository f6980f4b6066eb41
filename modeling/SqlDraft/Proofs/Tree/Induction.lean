import SqlDraft.Query.Basic

/-! Induction over the tree of a query. Expressions, conditions and queries hold one another in
lists and options; the principle below states once what each constructor holds, so that a proof
gives one case for each constructor and never walks the lists itself. -/

namespace SqlDraft.Tree

/-- What a property of expressions and conditions has to hold of for a query to be reached. -/
structure Holds (E : Expr → Prop) (C : Cond → Prop) (q : Query) : Prop where
  projection : ∀ i ∈ q.projection, E i.expr
  joins : ∀ j ∈ q.joins, ∀ c ∈ j.condition, C c
  filter : ∀ c ∈ q.filter, C c
  grouping : ∀ e ∈ q.grouping, E e
  having : ∀ c ∈ q.having, C c
  ordering : ∀ e ∈ q.ordering, E e
  rows : ∀ row ∈ q.rows, ∀ e ∈ row, E e
  assignments : ∀ a ∈ q.assignments, E a.value

/-- One step of an induction over trees, constructor by constructor. -/
structure Steps (E : Expr → Prop) (C : Cond → Prop) (Q : Query → Prop) : Prop where
  column : ∀ c, E (.column c)
  call : ∀ head args, (∀ a ∈ args, E a) → E (.call head args)
  literal : ∀ v t, E (.literal v t)
  list : ∀ vs t, E (.list vs t)
  subquery : ∀ q, Q q → E (.subquery q)
  star : ∀ t, E (.star t)
  predicate : ∀ e, E e → C (.predicate e)
  joined : ∀ j cs, (∀ c ∈ cs, C c) → C (.joined j cs)
  group : ∀ c, C c → C (.group c)
  query : ∀ q, Holds E C q → Q q

variable {E : Expr → Prop} {C : Cond → Prop} {Q : Query → Prop}

mutual

theorem Steps.expr (h : Steps E C Q) : ∀ e, E e
  | .column c => h.column c
  | .call head args => h.call head args (h.exprs args)
  | .literal v t => h.literal v t
  | .list vs t => h.list vs t
  | .subquery q => h.subquery q (h.whole q)
  | .star t => h.star t

theorem Steps.exprs (h : Steps E C Q) : ∀ es : List Expr, ∀ e ∈ es, E e
  | [] => List.forall_mem_nil _
  | x :: l => List.forall_mem_cons.mpr ⟨h.expr x, h.exprs l⟩

theorem Steps.exprRows (h : Steps E C Q) : ∀ rows : List (List Expr), ∀ row ∈ rows, ∀ e ∈ row, E e
  | [] => List.forall_mem_nil _
  | x :: l => List.forall_mem_cons.mpr ⟨h.exprs x, h.exprRows l⟩

theorem Steps.cond (h : Steps E C Q) : ∀ c, C c
  | .predicate e => h.predicate e (h.expr e)
  | .joined j cs => h.joined j cs (h.conds cs)
  | .group c => h.group c (h.cond c)

theorem Steps.conds (h : Steps E C Q) : ∀ cs : List Cond, ∀ c ∈ cs, C c
  | [] => List.forall_mem_nil _
  | x :: l => List.forall_mem_cons.mpr ⟨h.cond x, h.conds l⟩

theorem Steps.cond? (h : Steps E C Q) : ∀ o : Option Cond, ∀ c ∈ o, C c
  | none => fun _ hc => nomatch hc
  | some c => fun _ hx => Option.some.inj hx ▸ h.cond c

theorem Steps.item (h : Steps E C Q) : ∀ i : Item, E i.expr
  | ⟨e, _⟩ => h.expr e

theorem Steps.items (h : Steps E C Q) : ∀ l : List Item, ∀ i ∈ l, E i.expr
  | [] => List.forall_mem_nil _
  | x :: l => List.forall_mem_cons.mpr ⟨h.item x, h.items l⟩

theorem Steps.join (h : Steps E C Q) : ∀ j : Join, ∀ c ∈ j.condition, C c
  | ⟨_, _, o, _⟩ => h.cond? o

theorem Steps.joins (h : Steps E C Q) : ∀ l : List Join, ∀ j ∈ l, ∀ c ∈ j.condition, C c
  | [] => List.forall_mem_nil _
  | x :: l => List.forall_mem_cons.mpr ⟨h.join x, h.joins l⟩

theorem Steps.assignment (h : Steps E C Q) : ∀ a : Assignment, E a.value
  | ⟨_, e⟩ => h.expr e

theorem Steps.assignments (h : Steps E C Q) : ∀ l : List Assignment, ∀ a ∈ l, E a.value
  | [] => List.forall_mem_nil _
  | x :: l => List.forall_mem_cons.mpr ⟨h.assignment x, h.assignments l⟩

theorem Steps.whole (h : Steps E C Q) : ∀ q, Q q
  | ⟨_, _, _, projection, joins, filter, grouping, having, ordering, _, _, _, rows, assignments,
      _, _⟩ =>
    h.query _
      { projection := h.items projection
        joins := h.joins joins
        filter := h.cond? filter
        grouping := h.exprs grouping
        having := h.cond? having
        ordering := h.exprs ordering
        rows := h.exprRows rows
        assignments := h.assignments assignments }

end

end SqlDraft.Tree
