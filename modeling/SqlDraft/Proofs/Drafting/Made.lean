import SqlDraft.Proofs.Dialect.Flavor
import SqlDraft.Proofs.Drafting.Sound
import SqlDraft.Proofs.Tree.Induction
import SqlDraft.Proofs.Tree.Occurrence

/-! Queries that are drafted over columns, values, calls of functions, and queries made likewise
(`Query.MadeOf`). The functions are those at hand from the start, and others may be admitted
besides; without these it is `Query.Made`. What drafting keeps to is said once, of a query
(`Query.Sound`) and of all that stands in it (`Expr.Sound`): every clause is one that the statement
writes, and whatever could not be written for its shape alone is not made. -/

namespace SqlDraft

open Sql

/-- The signature of a function that is at hand from the start. -/
def Signature.IsBuiltin (g : Signature) : Prop := ∃ b : Builtin, g = b.signature

mutual

/-- Expressions made of columns, values and calls. -/
inductive Expr.MadeOf (G : Signature → Prop) : Expr → Prop
  | column (c : Column) : Expr.MadeOf G (.column c)
  | literal (v : Value) (t : Ty) : Expr.MadeOf G (.literal v t)
  | call {g : Signature} {os : List Operand} {e : Expr} (hg : g.IsBuiltin ∨ G g)
      (hos : ∀ o ∈ os, o.MadeOf G) (h : g.apply os = .ok e) : Expr.MadeOf G e
  | operand {o : Operand} {method : String} {e : Expr} (ho : o.MadeOf G)
      (h : o.toExpr method = .ok e) : Expr.MadeOf G e

inductive Operand.MadeOf (G : Signature → Prop) : Operand → Prop
  | expr {e : Expr} (he : e.MadeOf G) : Operand.MadeOf G (.expr e)
  | value (v : Value) : Operand.MadeOf G (.value v)
  | list (values : List Value) : Operand.MadeOf G (.list values)
  | query {q : Query} {c : Statement} (hq : q.Drafted (Operand.MadeOf G) (Listed.MadeOf G))
      (hc : q.command = .statement c) : Operand.MadeOf G (.query q)

inductive Listed.MadeOf (G : Signature → Prop) : Listed → Prop
  | star (t : Table) : Listed.MadeOf G (.star t)
  | labelled {e : Expr} (he : e.MadeOf G) (label : String) : Listed.MadeOf G (.labelled e label)
  | operand {o : Operand} (ho : o.MadeOf G) : Listed.MadeOf G (.operand o)

end

/-- Drafted with what is made of such calls itself, in drafts within drafts as well. -/
abbrev Query.MadeOf (G : Signature → Prop) : Query → Prop :=
  Query.Drafted (Operand.MadeOf G) (Listed.MadeOf G)

abbrev Expr.Made : Expr → Prop := Expr.MadeOf fun _ => False

abbrev Operand.Made : Operand → Prop := Operand.MadeOf fun _ => False

abbrev Query.Made : Query → Prop := Query.MadeOf fun _ => False

variable {G : Signature → Prop}

/-- Every column of a table. -/
theorem Query.MadeOf.selectFrom (t : Table) :
    ({ command := .statement .select, table := some t } : Query).MadeOf G :=
  .called (.started (@Query.Started.select _ [] _ nofun rfl)) (.target (t := t) rfl)

/-- Conditions of rows are made of operands that are. -/
theorem Query.MadeOf.restricted {q r : Query} {o : Operand} (K : Clause) (link : Link)
    (hq : q.MadeOf G) (ho : o.MadeOf G) (h : q.restrict K link (.operand o) = .ok r) : r.MadeOf G :=
  .called hq (.restrict (.operand ho) h)

/-! ## What stands in what is made -/

/-- A call has as many arguments as its function has parameters, a list has values in it, and a
query is a statement. -/
def Expr.Sound (G : Signature → Prop) : Expr → Prop
  | .call head args =>
    ∃ g : Signature, (g.IsBuiltin ∨ G g) ∧ head.function = g.name ∧ args.length = g.params.length
  | .list vs _ => vs ≠ []
  | .subquery q => q.Sound ∧ ∃ c, q.command = .statement c
  | _ => True

/-- All that stands in the expression is sound. -/
abbrev Expr.AllSound (G : Signature → Prop) (e : Expr) : Prop := e.Everywhere (Expr.Sound G)

/-- What the operand stands for is sound, whatever method takes it. -/
def Operand.AllSound (G : Signature → Prop) (o : Operand) : Prop :=
  ∀ (method : String) (e : Expr), o.toExpr method = .ok e → e.AllSound G

theorem Operand.AllSound.expr {G : Signature → Prop} {e : Expr} (h : (Operand.expr e).AllSound G) :
    e.AllSound G := h "" e rfl

/-- What the item lists is sound. -/
def Listed.AllSound (G : Signature → Prop) (l : Listed) : Prop :=
  ∀ {i : Item}, l.item = .ok i → i.expr.AllSound G

/-- All that stands in the condition is sound. -/
def Cond.AllSound (G : Signature → Prop) (c : Cond) : Prop := ∀ e ∈ c.exprs, e.AllSound G

/-- All that stands in the query is sound. -/
abbrev Query.PartsSound (G : Signature → Prop) : Query → Prop :=
  Tree.Holds (Expr.AllSound G) (Cond.AllSound G)

/-- The query is sound, and so is all that stands in it. -/
structure Query.AllSound (G : Signature → Prop) (q : Query) : Prop where
  whole : q.Sound
  parts : q.PartsSound G

theorem Query.AllSound.everywhere {q : Query} (h : q.AllSound G) : q.Everywhere (Expr.Sound G) :=
  h.parts.exprs

/-! ## Expressions -/

theorem Match.length_eq {g : Agreement} {function : String} {expected given : List Ty} {m : Match}
    (h : Match.run g function expected given = .ok m) : expected.length = given.length := by
  unfold Match.run at h
  dsimp only at h
  split at h
  · cases h
  · next hlength => simpa using hlength

/-- A call that is made has one argument for each parameter. -/
theorem Signature.applyExprs_eq_ok {s : Signature} {args : List Expr} {e : Expr}
    (h : s.applyExprs args = .ok e) : ∃ head, head.function = s.name ∧
      args.length = s.params.length ∧ e = .call head args := by
  obtain ⟨m, hm, h⟩ := bind_eq_ok_iff.mp h
  obtain ⟨type, -, h⟩ := bind_eq_ok_iff.mp h
  split at h
  · cases h
    refine ⟨_, rfl, ?_, rfl⟩
    simpa using (Match.length_eq hm).symm
  · cases h

theorem Expr.allSound_call {g : Signature} (hg : g.IsBuiltin ∨ G g) {args : List Expr} {e : Expr}
    (h : g.applyExprs args = .ok e) (hargs : ∀ a ∈ args, a.AllSound G) : e.AllSound G := by
  obtain ⟨head, hname, hlength, rfl⟩ := Signature.applyExprs_eq_ok h
  exact everywhere_call_iff.mpr ⟨⟨g, hg, hname, hlength⟩, hargs⟩

theorem Expr.allSound_literal (v : Value) (t : Ty) : (literal v t).AllSound G :=
  everywhere_literal_iff.mpr trivial

theorem Value.ne_nil_of_listType {method : String} {vs : List Value} {t : Ty}
    (h : Value.listType method vs = .ok t) : vs ≠ [] := by
  rintro rfl
  cases h

/-- How a column is ordered by is a call made likewise. -/
theorem Query.allSound_ordering {e e' : Expr} (he : e.AllSound G) (h : Query.ordering? e = .ok e') :
    e'.AllSound G := by
  unfold ordering? at h
  split at h
  · exact Expr.allSound_call (.inl ⟨.order .asc, rfl⟩) h (List.forall_mem_singleton.mpr he)
  · split at h
    · cases h
      exact he
    · cases h
  · cases h

theorem Cond.allSound_combine {existing : Option Cond} {j : Joiner} {added : Cond}
    (h : ∀ c ∈ existing, c.AllSound G) (hadded : added.AllSound G) :
    (combine existing j added).AllSound G :=
  forall_exprs_combine h hadded

/-! ## Methods -/

namespace Query

variable {q r : Query}

theorem partsSound_of_empty {c : Command} {t : Option Table} :
    ({ command := c, table := t } : Query).PartsSound G := by
  constructor <;> first | exact List.forall_mem_nil _ | exact fun _ h => nomatch h

theorem partsSound_select {items : List Listed} (hitems : ∀ l ∈ items, l.AllSound G)
    (h : Query.select items = .ok q) : q.PartsSound G := by
  obtain ⟨built, hbuilt, h⟩ := bind_eq_ok_iff.mp h
  cases h
  have hempty : (Query.ofStatement .select).PartsSound G := partsSound_of_empty
  refine { hempty with projection := fun i hi => ?_ }
  obtain ⟨l, hl, hli⟩ := exists_of_mem_mapM hbuilt hi
  exact hitems l hl hli

theorem partsSound_joining (kind : JoinKind) (t : Table) :
    (joining { kind, table := t }).PartsSound G :=
  have hempty : ({ command := .scope .join, table := some t } : Query).PartsSound G :=
    partsSound_of_empty
  { hempty with joins := List.forall_mem_singleton.mpr nofun }

theorem Started.partsSound {N : Listed → Prop} (hN : ∀ l, N l → l.AllSound G) (h : q.Started N) :
    q.PartsSound G := by
  cases h with
  | select hitems h => exact partsSound_select (fun l hl => hN l (hitems l hl)) h
  | joining kind t => exact partsSound_joining kind t
  | _ => exact partsSound_of_empty

namespace PartsSound

/-- The last join is given a condition all of which is sound, or none. -/
theorem lastJoin {front : List Join} {last j : Join} (hq : q.PartsSound G)
    (hjoins : q.joins = front ++ [last])
    (hj : (∀ c ∈ last.condition, c.AllSound G) → ∀ c ∈ j.condition, c.AllSound G) :
    ({ q with joins := front ++ [j] } : Query).PartsSound G := by
  have hall := hq.joins
  rw [hjoins, List.forall_mem_append, List.forall_mem_singleton] at hall
  exact { hq with
    joins := List.forall_mem_append.mpr ⟨hall.1, List.forall_mem_singleton.mpr (hj hall.2)⟩ }

theorem joined {j : Join} (hq : q.PartsSound G) (hcondition : ∀ c ∈ j.condition, c.AllSound G) :
    ({ q with joins := q.joins ++ [j] } : Query).PartsSound G :=
  { hq with
    joins := List.forall_mem_append.mpr
      ⟨hq.joins, List.forall_mem_singleton.mpr hcondition⟩ }

theorem restricts {K : Clause} {link : Link} {added : Cond} (hq : q.PartsSound G)
    (hadded : added.AllSound G) (hr : q.Restricts K link.joiner added r) : r.PartsSound G := by
  have combined {existing : Option Cond} (hc : ∀ c ∈ existing, c.AllSound G) :
      ∀ c ∈ some (Cond.combine existing link.joiner added), c.AllSound G := by
    rintro _ ⟨⟩
    exact Cond.allSound_combine hc hadded
  cases hr with
  | having => exact { hq with having := combined hq.having }
  | pairing _ _ hjoins => exact hq.lastJoin hjoins combined
  | filter => exact { hq with filter := combined hq.filter }

/-- The condition is that of an operand, or that of rows in what a draft hands back. -/
theorem restrict {K : Clause} {link : Link} {a : Criterion} (hq : q.PartsSound G)
    (ha : a.Within (Operand.AllSound G) (PartsSound G) K) (h : q.restrict K link a = .ok r) :
    r.PartsSound G := by
  obtain ⟨-, added, hadded, hr⟩ := restrict_eq_ok h
  refine hq.restricts ?_ hr
  cases ha with
  | operand ho =>
    obtain ⟨e, he, -, rfl⟩ := Criterion.condition_operand_eq_ok hadded
    exact List.forall_mem_singleton.mpr (ho _ e he)
  | draft hbuild hresult =>
    obtain ⟨result, inside, hok, -, hinside, rfl⟩ := Criterion.condition_draft_eq_ok hadded
    obtain rfl := Except.ok.inj (hbuild.symm.trans hok)
    exact hresult.filter inside hinside

theorem orderBy {es : List Expr} (hq : q.PartsSound G) (hes : ∀ e ∈ es, e.AllSound G)
    (h : q.orderBy es = .ok r) : r.PartsSound G := by
  obtain ⟨-, nodes, hnodes, rfl⟩ := orderBy_eq_ok h
  have hadded : ∀ e' ∈ nodes, e'.AllSound G := by
    intro e' he'
    obtain ⟨e, he, h⟩ := exists_of_mem_mapM hnodes he'
    exact allSound_ordering (hes e he) h
  exact { hq with ordering := List.forall_mem_append.mpr ⟨hq.ordering, hadded⟩ }

/-- A value of a row is one that the record has for it, or else null. -/
theorem allSound_rowValues {columns : List Column} {row : Catalog Operand} {values : List Expr}
    (hrow : ∀ e ∈ row.entries, e.2.AllSound G) (h : rowValues columns row = .ok values) :
    ∀ e ∈ values, e.AllSound G := by
  intro e he
  obtain ⟨n, hn⟩ := (rowValues_eq_ok h).2 e he
  cases hget : row.get? n with
  | none =>
    rw [hget] at hn
    cases hn
    exact Expr.allSound_literal _ _
  | some o =>
    rw [hget] at hn
    exact hrow (n, o) ((Catalog.lookup_eq_some_iff_mem row.nodup_names).mp hget) _ e hn

theorem insertRows {rows : List (Catalog Operand)} (hq : q.PartsSound G)
    (hrows : ∀ row ∈ rows, ∀ e ∈ row.entries, e.2.AllSound G) (h : q.insertRows rows = .ok r) :
    r.PartsSound G := by
  obtain ⟨-, columns, built, -, -, hbuilt, rfl⟩ := insertRows_eq_ok h
  have hadded : ∀ es ∈ built, ∀ e ∈ es, e.AllSound G := by
    intro es hes
    obtain ⟨row, hrow, hvalues⟩ := exists_of_mem_mapM hbuilt hes
    exact allSound_rowValues (hrows row hrow) hvalues
  exact { hq with rows := List.forall_mem_append.mpr ⟨hq.rows, hadded⟩ }

theorem assigned {added : List Assignment} (hq : q.PartsSound G)
    (hadded : ∀ a ∈ added, a.value.AllSound G) :
    ({ q with assignments := q.assignments ++ added } : Query).PartsSound G :=
  { hq with assignments := List.forall_mem_append.mpr ⟨hq.assignments, hadded⟩ }

end PartsSound

/-- Calls that are given what is sound add no more than that. -/
theorem Called.partsSound {A : Operand → Prop} (hA : ∀ o, A o → o.AllSound G) {m : Method}
    (hq : q.PartsSound G) (h : Called A (PartsSound G) m q r) : r.PartsSound G := by
  cases h with
  | target h => obtain ⟨-, rfl⟩ := target_eq_ok h; exact { hq with }
  | restrict ha h => exact hq.restrict (ha.imp hA fun _ h => h) h
  | join h =>
    obtain ⟨-, rfl⟩ := join_none_eq_ok h
    exact hq.joined nofun
  | joinDraft hbuild hresult h =>
    obtain ⟨-, result, j, rest, hok, -, hjoins, rfl⟩ := join_some_eq_ok h
    obtain rfl := Except.ok.inj (hbuild.symm.trans hok)
    exact hq.joined (hresult.joins j (hjoins ▸ List.mem_cons_self))
  | share h =>
    obtain ⟨-, -, front, last, hjoins, -, -, rfl⟩ := share_eq_ok h
    exact hq.lastJoin hjoins fun hlast => hlast
  | groupBy hes h =>
    obtain ⟨-, -, rfl⟩ := groupBy_eq_ok h
    have hadded := fun e he => (hA _ (hes e he)).expr
    exact { hq with grouping := List.forall_mem_append.mpr ⟨hq.grouping, hadded⟩ }
  | orderBy hes h => exact hq.orderBy (fun e he => (hA _ (hes e he)).expr) h
  | fetch h => obtain ⟨-, -, rfl⟩ := fetch_eq_ok h; exact { hq with }
  | skip h => obtain ⟨-, -, rfl⟩ := skip_eq_ok h; exact { hq with }
  | distinct h => obtain ⟨-, rfl⟩ := distinct_eq_ok h; exact { hq with }
  | values hrows h => exact hq.insertRows (fun row hrow e he => hA _ (hrows row hrow e he)) h
  | assign hrecord h =>
    obtain ⟨-, added, -, hadded, rfl⟩ := assign_eq_ok h
    refine hq.assigned fun a ha => ?_
    obtain ⟨e, he, hvalue⟩ := hadded a ha
    exact hA _ (hrecord e he) _ _ hvalue
  | assignColumn ho h =>
    obtain ⟨-, e, he, rfl⟩ := assignColumn_eq_ok h
    exact hq.assigned (List.forall_mem_singleton.mpr (hA _ ho _ e he))
  | ifExists h => obtain ⟨-, rfl⟩ := onlyIfExists_eq_ok h; exact { hq with }
  | ifNotExists h => obtain ⟨-, rfl⟩ := onlyIfMissing_eq_ok h; exact { hq with }

end Query

/-! ## Whatever is made is sound -/

theorem Listed.allSound_operand {o : Operand} (ho : o.AllSound G) :
    (Listed.operand o).AllSound G := by
  intro i h
  obtain ⟨e, he, h⟩ := bind_eq_ok_iff.mp h
  have hsound := ho _ e he
  split at h
  · cases h
  · cases h
    exact hsound

/-- The induction is on how operands, the items of a select and queries are made of one another. -/
theorem Operand.MadeOf.allSound {o : Operand} (h : o.MadeOf G) : o.AllSound G := by
  refine @Operand.MadeOf.rec G (fun e _ => e.AllSound G) (fun o _ => o.AllSound G)
    (fun l _ => l.AllSound G)
    (fun q _ => q.PartsSound G) (fun q _ => q.Started (Listed.AllSound G))
    (fun m q r _ => Query.Called (Operand.AllSound G) (Query.PartsSound G) m q r)
    (fun a K _ => a.Within (Operand.AllSound G) (Query.PartsSound G) K)
    ?column ?literal ?call ?operand ?expr ?value ?list ?query ?star ?labelled ?listed ?started
    ?called ?select .delete .insertInto .update .create .drop .inScope .joining
    ?_ ?_ ?_ ?_ ?_ ?_ ?_ ?_ ?_ ?_ ?_ ?_ ?_ ?_ ?_ ?_ ?_ _ h
  case column => exact fun _ => Expr.everywhere_column_iff.mpr trivial
  case literal => exact fun v t => Expr.allSound_literal v t
  case call =>
    intro g os e hg _ h ih
    obtain ⟨es, hes, h⟩ := bind_eq_ok_iff.mp h
    refine Expr.allSound_call hg h fun a ha => ?_
    obtain ⟨o, ho, hoa⟩ := exists_of_mem_mapM hes ha
    exact ih o ho _ a hoa
  case operand => exact fun _ h ih => ih _ _ h
  case expr =>
    intro e _ ih method e' h
    cases h
    exact ih
  case value =>
    intro v method e h
    cases h
    exact Expr.allSound_literal v _
  case list =>
    intro vs method e h
    obtain ⟨t, ht, rfl⟩ := map_eq_ok_iff.mp h
    exact Expr.everywhere_list_iff.mpr (Value.ne_nil_of_listType ht)
  case query =>
    intro q c hq hc ih method e h
    cases h
    exact Expr.everywhere_subquery_iff.mpr ⟨⟨hq.sound, c, hc⟩, ih.exprs⟩
  case star =>
    intro t i h
    cases h
    exact Expr.everywhere_star_iff.mpr trivial
  case labelled =>
    intro e _ label ih i h
    cases h
    exact ih
  case listed => exact fun _ ih => Listed.allSound_operand ih
  case started => exact fun _ ih => ih.partsSound fun _ h => h
  case called => exact fun _ _ hq ih => ih.partsSound (fun _ h => h) hq
  case select => exact fun _ h ih => .select ih h
  · exact fun h => .target h
  · exact fun _ h ih => .restrict ih h
  · exact fun h => .join h
  · exact fun hbuild _ h ih => .joinDraft hbuild ih h
  · exact fun h => .share h
  · exact fun _ h ih => .groupBy ih h
  · exact fun _ h ih => .orderBy ih h
  · exact fun h => .fetch h
  · exact fun h => .skip h
  · exact fun h => .distinct h
  · exact fun _ h ih => .values ih h
  · exact fun _ h ih => .assign ih h
  · exact fun _ h ih => .assignColumn ih h
  · exact fun h => .ifExists h
  · exact fun h => .ifNotExists h
  · exact fun _ ih => .operand ih
  · exact fun hbuild _ ih => .draft hbuild ih

theorem Expr.MadeOf.allSound {e : Expr} (h : e.MadeOf G) : e.AllSound G :=
  (Operand.MadeOf.expr h).allSound.expr

theorem Listed.MadeOf.allSound {l : Listed} (h : l.MadeOf G) : l.AllSound G := by
  cases h with
  | star t =>
    intro i h
    cases h
    exact Expr.everywhere_star_iff.mpr trivial
  | labelled he label =>
    intro i h
    cases h
    exact he.allSound
  | operand ho => exact allSound_operand ho.allSound

theorem Query.MadeOf.allSound {q : Query} (h : q.MadeOf G) : q.AllSound G :=
  ⟨h.sound, h.induction (fun _ h => h.partsSound fun _ => Listed.MadeOf.allSound)
    fun _ _ _ hq h => h.partsSound (fun _ => Operand.MadeOf.allSound) hq⟩

end SqlDraft
