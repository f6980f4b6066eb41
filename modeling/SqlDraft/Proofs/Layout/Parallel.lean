import Mathlib.Data.List.Forall2
import SqlDraft.Proofs.Tree.Occurrence
import SqlDraft.Sql.Compile

/-! A query written twice, side by side: in a dialect within some tables, and within other tables in
a dialect that differs by no more than its name and its rules for functions. What is written
compares in a certain way if that way of comparing goes through all that outcomes are put together
with (`Parallel`), and if the rules are the same for the functions that the query calls
(`Parallel.query`). -/

namespace SqlDraft

open Sql

/-- The dialect under another name, with other rules for functions. -/
def Dialect.variant (d : Dialect) (name : String) (functions : Rules) : Dialect :=
  { d with name, functions }

/-- A way to compare what is written in a dialect with what is written in a variant of it: a
relation on outcomes along with one on the tables of the statements around. -/
structure Parallel (d : Dialect) (name : String) (functions : Rules) where
  Rel {α : Type} : Outcome α → Outcome α → Prop
  Around : List Table → List Table → Prop
  ok {α : Type} (a : α) : Rel (.ok a) (.ok a)
  bind {α β : Type} {o o' : Outcome α} {f f' : α → Outcome β} (h : Rel o o')
    (hf : ∀ a, Rel (f a) (f' a)) : Rel (o >>= f) (o' >>= f')
  writing {α : Type} (issue : WritingIssue) :
    Rel (.error (.writing d.name issue) : Outcome α) (.error (.writing name issue))
  noRule {α : Type} (function : String) :
    Rel (.error (.noRule d.name function) : Outcome α) (.error (.noRule name function))
  noInstant {α : Type} : Rel (.error .noInstant : Outcome α) (.error .noInstant)
  inner {outer outer' : List Table} (h : Around outer outer') (own : List Table) :
    Around (own ++ outer) (own ++ outer')
  reference {outer outer' : List Table} (h : Around outer outer') (own : List Table) (t : Table)
    (written : Token) (called : String) : Rel (Site.reference ⟨d, own, outer⟩ t written called)
      (Site.reference ⟨d.variant name functions, own, outer'⟩ t written called)

namespace Parallel

variable {d : Dialect} {name : String} {functions : Rules} (p : Parallel d name functions)

/-! ## Outcomes -/

section

variable {α β : Type}

theorem map {o o' : Outcome α} (h : p.Rel o o') (f : α → β) : p.Rel (o.map f) (o'.map f) := by
  have hbind (o : Outcome α) : o.map f = o >>= fun a => .ok (f a) := by cases o <;> rfl
  rw [hbind, hbind]
  exact p.bind h fun a => p.ok (f a)

theorem gather {os os' : List (Outcome α)} (h : List.Forall₂ p.Rel os os') :
    p.Rel (gather os) (gather os') := by
  induction h with
  | nil => exact p.ok []
  | cons ho _ ih => exact p.bind ho fun a => p.bind ih fun as => p.ok _

theorem gatherOption {o o' : Option (Outcome α)} (h : Option.Rel p.Rel o o') :
    p.Rel (gatherOption o) (gatherOption o') := by
  cases h with
  | none => exact p.ok none
  | some h => exact p.map h some

theorem forall₂_map {l : List α} {f f' : α → Outcome β} (h : ∀ a ∈ l, p.Rel (f a) (f' a)) :
    List.Forall₂ p.Rel (l.map f) (l.map f') := by
  rw [List.forall₂_map_left_iff, List.forall₂_map_right_iff, List.forall₂_same]
  exact h

theorem rel_map {o : Option α} {f f' : α → Outcome β} (h : ∀ a ∈ o, p.Rel (f a) (f' a)) :
    Option.Rel p.Rel (o.map f) (o.map f') := by
  cases o with
  | none => exact .none
  | some a => exact .some (h a rfl)

end

/-! ## What is laid out of them -/

/-- The parts of a statement compare one by one. -/
structure Parts (a b : Sql.Parts) : Prop where
  projection : List.Forall₂ p.Rel a.projection b.projection
  joins : List.Forall₂ p.Rel a.joins b.joins
  filter : Option.Rel p.Rel a.filter b.filter
  grouping : List.Forall₂ p.Rel a.grouping b.grouping
  having : Option.Rel p.Rel a.having b.having
  ordering : List.Forall₂ p.Rel a.ordering b.ordering
  rows : List.Forall₂ (List.Forall₂ p.Rel) a.rows b.rows
  assignments : List.Forall₂ p.Rel a.assignments b.assignments

variable {own outer outer' : List Table}

theorem target (q : Query) : p.Rel (Site.target ⟨d, own, outer⟩ q)
    (Site.target ⟨d.variant name functions, own, outer'⟩ q) := by
  unfold Site.target
  cases q.table with
  | none => exact p.writing _
  | some t => exact p.ok t

theorem literal (t : Ty) (v : Value) : p.Rel (Site.literal ⟨d, own, outer⟩ t v)
    (Site.literal ⟨d.variant name functions, own, outer'⟩ t v) := by
  cases v with
  | null => exact p.ok _
  | truth b => exact p.ok _
  | number x =>
    simp only [Site.literal]
    split
    · exact p.ok _
    · exact p.writing _
  | text v =>
    simp only [Site.literal]
    split <;> exact p.ok _
  | date i =>
    cases i with
    | none => exact p.noInstant
    | some i => exact p.ok _

/-! ### Calls -/

section

variable {es : List Expr} {o o' : Expr → Outcome Tokens} {function : String}

theorem operandAt (h : ∀ e ∈ es, p.Rel (o e) (o' e))
    (hp : ∀ e ∈ es, Site.precedence? ⟨d.variant name functions, own, outer'⟩ e =
      Site.precedence? ⟨d, own, outer⟩ e) (i : Nat) (misread : Rat → Bool) :
    p.Rel (Site.operandAt ⟨d, own, outer⟩ function (es.map fun e => ⟨e, o e⟩) i misread)
      (Site.operandAt ⟨d.variant name functions, own, outer'⟩ function
        (es.map fun e => ⟨e, o' e⟩) i misread) := by
  simp only [Site.operandAt, List.getElem?_map]
  cases he : es[i]? with
  | none => exact p.writing _
  | some e =>
    have hmem := List.mem_of_getElem? he
    -- its precedence is all that decides whether it is enclosed
    have hoperand : Site.operand ⟨d.variant name functions, own, outer'⟩ misread e =
        Site.operand ⟨d, own, outer⟩ misread e := by
      funext ts
      rw [Site.operand, Site.operand, hp e hmem]
    show p.Rel ((o e).map _) ((o' e).map _)
    rw [hoperand]
    exact p.map (h e hmem) _

theorem containerAt (h : ∀ e ∈ es, p.Rel (o e) (o' e)) (i : Nat) :
    p.Rel (Site.containerAt ⟨d, own, outer⟩ function (es.map fun e => ⟨e, o e⟩) i)
      (Site.containerAt ⟨d.variant name functions, own, outer'⟩ function
        (es.map fun e => ⟨e, o' e⟩) i) := by
  simp only [Site.containerAt, List.getElem?_map]
  cases he : es[i]? with
  | none => exact p.writing _
  | some e =>
    have hrel := h e (List.mem_of_getElem? he)
    show p.Rel (Site.container ⟨e, o e⟩) (Site.container ⟨e, o' e⟩)
    unfold Site.container
    cases e with
    | list => exact hrel
    | subquery => exact hrel
    | _ => exact p.map hrel _

/-- A call that both have the same rule for, or none. -/
theorem call (hrule : (d.variant name functions).rule? function = d.rule? function)
    (h : ∀ e ∈ es, p.Rel (o e) (o' e))
    (hp : ∀ e ∈ es, Site.precedence? ⟨d.variant name functions, own, outer'⟩ e =
      Site.precedence? ⟨d, own, outer⟩ e) :
    p.Rel (Site.call ⟨d, own, outer⟩ function (es.map fun e => ⟨e, o e⟩))
      (Site.call ⟨d.variant name functions, own, outer'⟩ function (es.map fun e => ⟨e, o' e⟩)) := by
  have hgather : p.Rel (Sql.gather ((es.map fun e => (⟨e, o e⟩ : Argument)).map Argument.outcome))
      (Sql.gather ((es.map fun e => (⟨e, o' e⟩ : Argument)).map Argument.outcome)) := by
    rw [List.map_map, List.map_map]
    exact p.gather (p.forall₂_map h)
  -- by the same rule, so that only the arguments make a difference
  unfold Site.call
  dsimp only
  rw [hrule]
  cases d.rule? function with
  | none => exact p.noRule function
  | some r =>
    cases r with
    | between operator precedence alone =>
      exact p.bind (p.operandAt h hp _ _) fun _ =>
        p.bind (p.operandAt h hp _ _) fun _ => p.ok _
    | before operator => exact p.bind (p.operandAt h hp _ _) fun _ => p.ok _
    | after operator => exact p.bind (p.operandAt h hp _ _) fun _ => p.ok _
    | call name => exact p.bind hgather fun _ => p.ok _
    | membership operator =>
      exact p.bind (p.operandAt h hp _ _) fun _ => p.bind (p.containerAt h _) fun _ => p.ok _
    | custom write => exact p.bind hgather fun _ => p.ok _

end

/-! ### Clauses -/

theorem clause? (c : Clause) {o o' : Option (Outcome Tokens)} (h : Option.Rel p.Rel o o') :
    p.Rel (Site.clause? ⟨d, own, outer⟩ c o)
      (Site.clause? ⟨d.variant name functions, own, outer'⟩ c o') := by
  refine p.bind (p.gatherOption h) fun ts => ?_
  cases ts <;> exact p.ok _

theorem listed? (k : Keyword) {os os' : List (Outcome Tokens)} (h : List.Forall₂ p.Rel os os') :
    p.Rel (Site.listed? ⟨d, own, outer⟩ k os)
      (Site.listed? ⟨d.variant name functions, own, outer'⟩ k os') := by
  refine p.bind (p.gather h) fun tss => ?_
  cases tss <;> exact p.ok _

theorem join (j : Join) {o o' : Option (Outcome Tokens)} (h : Option.Rel p.Rel o o') :
    p.Rel (Site.join ⟨d, own, outer⟩ j o)
      (Site.join ⟨d.variant name functions, own, outer'⟩ j o') := by
  unfold Site.join
  dsimp only
  split
  · split
    · exact p.writing _
    · exact p.ok _
  · cases h with
    | some h => exact p.map h _
    | none =>
      split
      · contradiction
      · exact p.ok _
      · exact p.writing _

variable {q : Query} {a b : Sql.Parts}

theorem projection (h : p.Parts a b) : p.Rel (Site.projection ⟨d, own, outer⟩ q a)
    (Site.projection ⟨d.variant name functions, own, outer'⟩ q b) := by
  unfold Site.projection
  split
  · dsimp only
    split <;> exact p.ok _
  · exact p.map (p.gather h.projection) _

/-! ### Statements -/

theorem select (h : p.Parts a b) : p.Rel (Site.select ⟨d, own, outer⟩ q a)
    (Site.select ⟨d.variant name functions, own, outer'⟩ q b) :=
  p.bind (p.target q) fun _ => p.bind (p.projection h) fun _ => p.bind (p.gather h.joins) fun _ =>
    p.bind (p.clause? _ h.filter) fun _ => p.bind (p.listed? _ h.grouping) fun _ =>
      p.bind (p.clause? _ h.having) fun _ => p.bind (p.listed? _ h.ordering) fun _ => p.ok _

theorem insert (h : p.Parts a b) : p.Rel (Site.insert ⟨d, own, outer⟩ q a)
    (Site.insert ⟨d.variant name functions, own, outer'⟩ q b) := by
  have hrows : List.Forall₂ p.Rel
      (a.rows.map fun row => (Sql.gather row).map fun ts => (Tokens.listed ts).enclosed)
      (b.rows.map fun row => (Sql.gather row).map fun ts => (Tokens.listed ts).enclosed) := by
    rw [List.forall₂_map_left_iff, List.forall₂_map_right_iff]
    exact h.rows.imp fun row row' hrow => p.map (p.gather hrow) _
  refine p.bind (p.target q) fun t => ?_
  dsimp only
  split
  · exact p.writing _
  · exact p.bind (p.gather hrows) fun _ => p.ok _

theorem update (h : p.Parts a b) : p.Rel (Site.update ⟨d, own, outer⟩ q a)
    (Site.update ⟨d.variant name functions, own, outer'⟩ q b) := by
  refine p.bind (p.target q) fun t => ?_
  dsimp only
  split
  · exact p.writing _
  · exact p.bind (p.gather h.assignments) fun _ => p.bind (p.clause? _ h.filter) fun _ => p.ok _

theorem delete (h : p.Parts a b) : p.Rel (Site.delete ⟨d, own, outer⟩ q a)
    (Site.delete ⟨d.variant name functions, own, outer'⟩ q b) :=
  p.bind (p.target q) fun _ => p.bind (p.clause? _ h.filter) fun _ => p.ok _

theorem create : p.Rel (Site.create ⟨d, own, outer⟩ q)
    (Site.create ⟨d.variant name functions, own, outer'⟩ q) := by
  have hdefinition (c : Column) : p.Rel (Site.definition ⟨d, own, outer⟩ c)
      (Site.definition ⟨d.variant name functions, own, outer'⟩ c) := by
    unfold Site.definition
    split
    · exact p.ok _
    · exact p.writing _
  refine p.bind (p.target q) fun t => ?_
  dsimp only
  split
  · exact p.writing _
  · exact p.bind (p.gather (p.forall₂_map fun c _ => hdefinition c)) fun _ => p.ok _

theorem drop : p.Rel (Site.drop ⟨d, own, outer⟩ q)
    (Site.drop ⟨d.variant name functions, own, outer'⟩ q) :=
  p.bind (p.target q) fun _ => p.ok _

theorem statement (h : p.Parts a b) : p.Rel (Site.statement ⟨d, own, outer⟩ q a)
    (Site.statement ⟨d.variant name functions, own, outer'⟩ q b) := by
  unfold Site.statement
  cases q.command with
  | scope c => exact p.writing _
  | statement c =>
    by_cases hc : c ∈ d.commands
    · have hc' : c ∈ (d.variant name functions).commands := hc
      dsimp only
      rw [if_pos hc, if_pos hc']
      cases c with
      | select => exact p.select h
      | insert => exact p.insert h
      | update => exact p.update h
      | delete => exact p.delete h
      | create => exact p.create
      | drop => exact p.drop
    · have hc' : c ∉ (d.variant name functions).commands := hc
      dsimp only
      rw [if_neg hc, if_neg hc']
      exact p.writing _

end Parallel

/-! ## The tree -/

/-- The function that an expression calls, if it calls one. -/
def Expr.function? : Expr → Option String
  | .call head _ => some head.function
  | _ => none

theorem Query.everywhere_of_forall {P : Expr → Prop} (h : ∀ e, P e) (q : Query) : q.Everywhere P :=
  fun _ _ _ _ e _ => h e

/-- What holds of a query's parts for what is in their expressions holds of them if it is in
them. -/
theorem Tree.Holds.of_exprs {P E : Expr → Prop} {C : Cond → Prop} {q : Query}
    (h : Tree.Holds (fun e => P e → E e) (fun c => (∀ e ∈ c.exprs, P e) → C c) q)
    (hq : ∀ e ∈ q.exprs, P e) : Tree.Holds E C q := by
  have condition {c : Option Cond} (hc : ∀ e ∈ Cond.exprs? c, P e) :
      ∀ k ∈ c, ∀ e ∈ k.exprs, P e :=
    fun k hk e he => hc e (Cond.mem_exprs?_iff.mpr ⟨k, hk, he⟩)
  simp only [Query.mem_exprs_iff] at hq
  exact
    { projection := fun i hi => h.projection i hi (hq _ (.inl ⟨i, hi, rfl⟩))
      joins := fun j hj c hc => h.joins j hj c hc
        (condition (fun e he => hq e (.inr (.inl ⟨j, hj, he⟩))) c hc)
      filter := fun c hc => h.filter c hc
        (condition (fun e he => hq e (.inr (.inr (.inl he)))) c hc)
      grouping := fun e he => h.grouping e he (hq e (.inr (.inr (.inr (.inl he)))))
      having := fun c hc => h.having c hc
        (condition (fun e he => hq e (.inr (.inr (.inr (.inr (.inl he)))))) c hc)
      ordering := fun e he => h.ordering e he (hq e (.inr (.inr (.inr (.inr (.inr (.inl he)))))))
      rows := fun row hrow e he => h.rows row hrow e he
        (hq e (.inr (.inr (.inr (.inr (.inr (.inr (.inl ⟨row, hrow, he⟩))))))))
      assignments := fun a ha => h.assignments a ha
        (hq _ (.inr (.inr (.inr (.inr (.inr (.inr (.inr ⟨a, ha, rfl⟩)))))))) }

namespace Parallel

variable {d : Dialect} {name : String} {functions : Rules} (p : Parallel d name functions)

/-- What the expression calls, if it calls something, has the same rule in both. -/
def Settles (_ : Parallel d name functions) (e : Expr) : Prop :=
  ∀ f ∈ e.function?, functions.get? f = d.rule? f

/-- The expression compares wherever it is written. -/
def Fits (e : Expr) : Prop := ∀ own {outer outer'}, p.Around outer outer' →
  p.Rel (e.write ⟨d, own, outer⟩) (e.write ⟨d.variant name functions, own, outer'⟩)

def CondFits (c : Cond) : Prop := ∀ own {outer outer'} within, p.Around outer outer' →
  p.Rel (c.write ⟨d, own, outer⟩ within) (c.write ⟨d.variant name functions, own, outer'⟩ within)

def QueryFits (q : Query) : Prop := ∀ {outer outer'}, p.Around outer outer' →
  p.Rel (q.write d outer) (q.write (d.variant name functions) outer')

variable {own outer outer' : List Table}

theorem precedence?_eq {e : Expr} (h : p.Settles e) :
    Site.precedence? ⟨d.variant name functions, own, outer'⟩ e = Site.precedence?
      ⟨d, own, outer⟩ e := by
  cases e with
  | call head args =>
    show (functions.get? head.function).bind _ = _
    rw [h head.function rfl]
    rfl
  | _ => rfl

theorem condition? {c : Option Cond} (hc : ∀ k ∈ c, p.CondFits k) (h : p.Around outer outer') :
    Option.Rel p.Rel (Cond.write? ⟨d, own, outer⟩ c)
      (Cond.write? ⟨d.variant name functions, own, outer'⟩ c) := by
  rw [Cond.write?_eq_map, Cond.write?_eq_map]
  exact p.rel_map fun k hk => hc k hk own none h

theorem outcomes {es : List Expr} (hes : ∀ e ∈ es, p.Fits e) (h : p.Around outer outer') :
    List.Forall₂ p.Rel ((Expr.arguments ⟨d, own, outer⟩ es).map Argument.outcome)
      ((Expr.arguments ⟨d.variant name functions, own, outer'⟩ es).map Argument.outcome) := by
  rw [Expr.arguments_eq_map, Expr.arguments_eq_map, List.map_map, List.map_map]
  exact p.forall₂_map fun e he => hes e he own h

theorem parts {q : Query} (hq : Tree.Holds p.Fits p.CondFits q) (h : p.Around outer outer') :
    p.Parts (q.parts ⟨d, own, outer⟩) (q.parts ⟨d.variant name functions, own, outer'⟩) where
  projection := by
    simp only [Query.parts, Item.writeEach_eq_map]
    refine p.forall₂_map fun i hi => ?_
    rw [Item.write_eq, Item.write_eq]
    exact p.map (hq.projection i hi own h) _
  joins := by
    simp only [Query.parts, Join.writeEach_eq_map]
    refine p.forall₂_map fun j hj => ?_
    rw [Join.write_eq, Join.write_eq]
    exact p.join j (p.condition? (hq.joins j hj) h)
  filter := p.condition? hq.filter h
  grouping := p.outcomes hq.grouping h
  having := p.condition? hq.having h
  ordering := p.outcomes hq.ordering h
  rows := by
    simp only [Query.parts, Expr.rows_eq_map]
    rw [List.forall₂_map_left_iff, List.forall₂_map_right_iff, List.forall₂_same]
    exact fun row hrow => p.forall₂_map fun e he => hq.rows row hrow e he own h
  assignments := by
    simp only [Query.parts, Assignment.writeEach_eq_map]
    refine p.forall₂_map fun a ha => ?_
    rw [Assignment.write_eq, Assignment.write_eq]
    exact p.map (hq.assignments a ha own h) _

theorem steps : Tree.Steps (fun e => e.Everywhere p.Settles → p.Fits e)
    (fun c => (∀ e ∈ c.exprs, e.Everywhere p.Settles) → p.CondFits c)
    (fun q => q.Everywhere p.Settles → p.QueryFits q) where
  column c _ own outer outer' h := by
    rw [Expr.write, Expr.write]
    exact p.reference h own _ _ _
  star t _ own outer outer' h := by
    rw [Expr.write, Expr.write]
    exact p.reference h own _ _ _
  literal v t _ own outer outer' _ := by
    rw [Expr.write, Expr.write]
    exact p.literal t v
  list vs t _ own outer outer' _ := by
    rw [Expr.write, Expr.write]
    split
    · exact p.writing _
    · exact p.map (p.gather (p.forall₂_map fun v _ => p.literal t v)) _
  call head args ih hcall own outer outer' h := by
    obtain ⟨hhead, hargs⟩ := Expr.everywhere_call_iff.mp hcall
    rw [Expr.write, Expr.write, Expr.arguments_eq_map, Expr.arguments_eq_map]
    exact p.call (hhead _ rfl) (fun e he => ih e he (hargs e he) own h)
      fun e he => p.precedence?_eq (hargs e he).self
  subquery q ih hq own outer outer' h := by
    rw [Expr.write, Expr.write]
    exact p.map (ih (Expr.everywhere_subquery_iff.mp hq).2 (p.inner h own)) _
  predicate e ih he own outer outer' within h := by
    have he := List.forall_mem_singleton.mp he
    have hoperand (misread : Rat → Bool) :
        Site.operand ⟨d.variant name functions, own, outer'⟩ misread e =
          Site.operand ⟨d, own, outer⟩ misread e := by
      funext ts
      rw [Site.operand, Site.operand, p.precedence?_eq he.self]
    rw [Cond.write, Cond.write]
    simp only [hoperand]
    exact p.map (ih he own h) _
  joined j cs ih hcs own outer outer' within h := by
    rw [Cond.write, Cond.write, Cond.writeEach_eq_map, Cond.writeEach_eq_map]
    have hparts : ∀ c ∈ cs, p.CondFits c := fun c hc =>
      ih c hc fun e he => hcs e (Cond.mem_exprs_joined_iff.mpr ⟨c, hc, he⟩)
    exact p.bind (p.gather (p.forall₂_map fun c hc => hparts c hc own _ h)) fun _ => p.ok _
  group c ih hc own outer outer' within h := by
    rw [Cond.write, Cond.write]
    exact p.map (ih hc own none h) _
  query q ih hq outer outer' h := by
    rw [Query.write_eq, Query.write_eq]
    exact p.statement (p.parts (ih.of_exprs hq) h)

/-- A query compares if the functions it calls, at any depth, have the same rules in both. -/
theorem query {q : Query} (hq : q.Everywhere p.Settles) (h : p.Around outer outer') :
    p.Rel (q.write d outer) (q.write (d.variant name functions) outer') :=
  p.steps.whole q hq h

end Parallel

end SqlDraft
