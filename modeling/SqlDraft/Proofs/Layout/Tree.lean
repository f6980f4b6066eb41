import SqlDraft.Proofs.Layout.Blank
import SqlDraft.Proofs.Layout.Weave
import SqlDraft.Proofs.Tree.Induction

/-! What is written of a query, by induction on the tree: it carries the data of the query in order
(`write_carries`), so it is woven with the texts of its string literals (`write_woven`), and all but
these literals is written without regard to what they say (`write_blanked`). -/

namespace SqlDraft

open Reading Sql

/-! ## What is written carries the data -/

section

variable {f : Flavor}

/-- Wherever the expression is written, it carries its data. -/
def ExprCarries (f : Flavor) (e : Expr) : Prop :=
  ∀ s : Site, s.dialect = f.dialect → Writes f (e.write s) (e.data s)

def CondCarries (f : Flavor) (c : Cond) : Prop :=
  ∀ (s : Site) (within : Option Joiner), s.dialect = f.dialect →
    Writes f (c.write s within) (c.data s)

theorem exprs_carry {s : Site} (hs : s.dialect = f.dialect) {es : List Expr}
    (h : ∀ e ∈ es, ExprCarries f e) :
    WritesEach f ((Expr.arguments s es).map Argument.outcome) (Expr.dataEach s es).flatten := by
  rw [Expr.arguments_eq_map, List.map_map, Expr.dataEach_eq_map]
  exact writesEach_map fun e hm => h e hm s hs

theorem cond?_carries {s : Site} (hs : s.dialect = f.dialect) {o : Option Cond}
    (h : ∀ c ∈ o, CondCarries f c) :
    WritesEach f (Cond.write? s o).toList (Cond.data? s o) := by
  cases o with
  | none => exact writesEach_nil
  | some c =>
    rw [Cond.data?, ← List.append_nil (c.data s)]
    exact .cons (h c rfl s none hs) writesEach_nil

theorem parts_carry {s : Site} (hs : s.dialect = f.dialect) {q : Query}
    (h : Tree.Holds (ExprCarries f) (CondCarries f) q) :
    Site.PartsCarry f (q.parts s) (q.dataParts s) where
  projection := by
    show WritesEach f (Item.writeEach s q.projection) (Item.dataEach s q.projection).flatten
    rw [Item.writeEach_eq_map, Item.dataEach_eq_map]
    refine writesEach_map fun i hi => ?_
    obtain ⟨e, label⟩ := i
    rw [Item.write, Item.data]
    exact (h.projection _ hi s hs).map fun ts ht => Site.item_carries hs label ht
  joins := by
    show WritesEach f (Join.writeEach s q.joins) (Join.dataEach s q.joins).flatten
    rw [Join.writeEach_eq_map, Join.dataEach_eq_map]
    refine writesEach_map fun j hj => ?_
    obtain ⟨kind, t, condition, shared⟩ := j
    rw [Join.write, Join.data]
    refine Site.join_carries hs ⟨kind, t, condition, shared⟩ (cond?_carries hs (h.joins _ hj)) ?_
    rw [Cond.write?_eq_map, Option.isSome_map]
  filter := cond?_carries hs h.filter
  grouping := exprs_carry hs h.grouping
  having := cond?_carries hs h.having
  ordering := exprs_carry hs h.ordering
  rows := by
    show WritesEach f ((Expr.rows s q.rows).map _) (Expr.dataRows s q.rows).flatten.flatten
    rw [Expr.rows_eq_map, Expr.dataRows_eq_map, List.map_map, List.flatten_flatten, List.map_map]
    refine writesEach_map fun row hrow ts hts => ?_
    obtain ⟨tss, ht, rfl⟩ := map_eq_ok_iff.mp hts
    have hw := writesEach_map (fun e he => h.rows row hrow e he s hs) tss ht
    exact hw.listed.parenthesized
  assignments := by
    show WritesEach f (Assignment.writeEach s q.assignments)
      (Assignment.dataEach s q.assignments).flatten
    rw [Assignment.writeEach_eq_map, Assignment.dataEach_eq_map]
    refine writesEach_map fun a ha => ?_
    obtain ⟨c, e⟩ := a
    rw [Assignment.write, Assignment.data]
    exact (h.assignments _ ha s hs).map fun ts ht => Site.assignment_carries hs c ht

theorem carries_steps (f : Flavor) : Tree.Steps (ExprCarries f) (CondCarries f)
    (fun q => ∀ outer, Writes f (q.write f.dialect outer) (q.data f.dialect outer)) where
  column c s hs := by
    rw [Expr.write, Expr.data]
    exact Site.reference_carries hs _ (Site.name_carries hs _) _
  star t s hs := by
    rw [Expr.write, Expr.data]
    exact Site.reference_carries hs _ (.mark (by decide)) _
  literal v t s hs := by
    rw [Expr.write, Expr.data]
    exact Site.literal_carries hs t v
  list vs t s hs := by
    rw [Expr.write, Expr.data]
    intro ts hts
    split at hts
    · cases hts
    · obtain ⟨parts, hp, rfl⟩ := map_eq_ok_iff.mp hts
      have hw := writesEach_map (fun v (_ : v ∈ vs) => Site.literal_carries hs t v) parts hp
      rw [← List.flatMap_def, ← List.filterMap_eq_flatMap_toList] at hw
      exact hw.listed.parenthesized
  subquery q hq s hs := by
    rw [Expr.write, Expr.data, hs]
    exact (hq _).map fun ts ht => ht.parenthesized
  call head args h s hs := by
    rw [Expr.write, Expr.data, Expr.arguments_eq_map, Expr.dataEach_eq_map, hs]
    exact Site.call_carries hs _ fun e he => h e he s hs
  predicate e h s within hs := by
    rw [Cond.write, Cond.data]
    refine (h s hs).map fun ts ht => ?_
    cases within with
    | none => exact ht
    | some j => exact Site.operand_carries ht _ e
  group c h s within hs := by
    rw [Cond.write, Cond.data]
    exact (h s none hs).map fun ts ht => ht.parenthesized
  joined j cs h s within hs := by
    rw [Cond.write, Cond.data, Cond.writeEach_eq_map, Cond.dataEach_eq_map]
    intro ts hts
    obtain ⟨parts, hp, hts⟩ := bind_eq_ok_iff.mp hts
    have hw := writesEach_map (fun c hc => h c hc s (some j) hs) parts hp
    have hjoined : Carries f
        (Tokens.separated [Tokens.space, s.keyword (.joiner j), Tokens.space] parts) _ :=
      hw.separated fun hx hy => Site.spacedWord_carries (hs ▸ .keyword _) hx hy
    cases hts
    split
    · exact hjoined.parenthesized
    · exact hjoined
  query q h outer := by
    rw [Query.write_eq, Query.data_eq]
    exact Site.statement_carries rfl (parts_carry rfl h)

end

/-! ## What is written does not depend on texts -/

section

variable {f : Flavor}

def ExprBlank (f : Flavor) (e : Expr) : Prop :=
  ∀ s : Site, s.dialect = f.dialect → (e.blanked.write s).map blank = (e.write s).map blank

def CondBlank (f : Flavor) (c : Cond) : Prop :=
  ∀ (s : Site) (within : Option Joiner), s.dialect = f.dialect →
    (c.blanked.write s within).map blank = (c.write s within).map blank

theorem precedence?_blanked (s : Site) (e : Expr) : s.precedence? e.blanked = s.precedence? e := by
  cases e <;> rfl

theorem literal_blanked (s : Site) (t : Ty) (v : Value) :
    (s.literal t v.blanked).map blank = (s.literal t v).map blank := by
  cases v with
  | text v =>
    show (s.literal t (.text "")).map blank = _
    unfold Site.literal
    cases Site.temporal? t <;> rfl
  | _ => rfl

/-- What a call looks at of its arguments is not changed by blanking them. -/
theorem call_blankedExprs (s : Site) (function : String) (es : List Expr)
    (o : Expr → Outcome Tokens) :
    s.call function (es.map fun e => ⟨e.blanked, o e⟩) =
      s.call function (es.map fun e => ⟨e, o e⟩) := by
  have operandAt (i : Nat) (misread : Rat → Bool) :
      s.operandAt function (es.map fun e => ⟨e.blanked, o e⟩) i misread =
        s.operandAt function (es.map fun e => ⟨e, o e⟩) i misread := by
    unfold Site.operandAt
    rw [List.getElem?_map, List.getElem?_map]
    cases es[i]? with
    | none => rfl
    | some e =>
      show (o e).map _ = (o e).map _
      unfold Site.operand
      rw [precedence?_blanked]
  have containerAt (i : Nat) : s.containerAt function (es.map fun e => ⟨e.blanked, o e⟩) i =
      s.containerAt function (es.map fun e => ⟨e, o e⟩) i := by
    unfold Site.containerAt
    rw [List.getElem?_map, List.getElem?_map]
    cases es[i]? with
    | none => rfl
    | some e => cases e <;> rfl
  have outcomes : (es.map fun e => Argument.mk e.blanked (o e)).map Argument.outcome =
      (es.map fun e => Argument.mk e (o e)).map Argument.outcome := by
    rw [List.map_map, List.map_map]
    rfl
  unfold Site.call
  cases s.dialect.rule? function with
  | none => rfl
  | some r =>
    show s.apply function _ r = s.apply function _ r
    cases r <;> simp only [Site.apply, operandAt, containerAt, outcomes]

/-- A statement is laid out by what is not blanked of its query. -/
theorem statement_blanked (s : Site) (q : Query) (p : Parts) :
    s.statement q.blanked p = s.statement q p := by
  obtain ⟨command, _, _, _, _, _, _, _, _, _, _, _, _, _, _, _⟩ := q
  rw [Query.blanked, Item.blankedEach_eq_map, Join.blankedEach_eq_map, Expr.blankedEach_eq_map,
    Expr.blankedEach_eq_map, Expr.blankedRows_eq_map, Assignment.blankedEach_eq_map]
  unfold Site.statement
  cases command with
  | scope c => rfl
  | statement c =>
    cases c with
    | select => simp only [Site.select, Site.projection, List.isEmpty_map]; rfl
    | insert => simp only [Site.insert, List.isEmpty_map]; rfl
    | update => simp only [Site.update, List.isEmpty_map]; rfl
    | _ => rfl

theorem map_blank_congr {α : Type} {l : List α} {o o' : α → Outcome Tokens}
    (h : ∀ a ∈ l, (o a).map blank = (o' a).map blank) :
    (l.map o).map (Except.map blank) = (l.map o').map (Except.map blank) := by
  rw [List.map_map, List.map_map]
  exact List.map_congr_left h

theorem gather_blank_congr {α : Type} {l : List α} {o o' : α → Outcome Tokens}
    (h : ∀ a ∈ l, (o a).map blank = (o' a).map blank) :
    (gather (l.map o)).map (List.map blank) = (gather (l.map o')).map (List.map blank) := by
  rw [← gather_map, ← gather_map, map_blank_congr h]

/-- Whatever commutes with blanking keeps outcomes alike. -/
theorem map_blank_of_natural {α : Type} {b : α → α} {g : α → Tokens} {x y : Outcome α}
    (hg : ∀ a, blank (g a) = g (b a)) (h : x.map b = y.map b) :
    (x.map g).map blank = (y.map g).map blank := by
  simp only [map_map, hg]
  rw [← map_map x b g, ← map_map y b g, h]

theorem exprs_blanked {s : Site} (hs : s.dialect = f.dialect) {es : List Expr}
    (h : ∀ e ∈ es, ExprBlank f e) :
    ((Expr.arguments s (Expr.blankedEach es)).map Argument.outcome).map (Except.map blank) =
      ((Expr.arguments s es).map Argument.outcome).map (Except.map blank) := by
  rw [Expr.arguments_eq_map, Expr.arguments_eq_map, Expr.blankedEach_eq_map]
  simp only [List.map_map]
  exact List.map_congr_left fun e hm => h e hm s hs

theorem cond?_blanked {s : Site} (hs : s.dialect = f.dialect) {o : Option Cond}
    (h : ∀ c ∈ o, CondBlank f c) :
    (Cond.write? s (Cond.blanked? o)).map (Except.map blank) =
      (Cond.write? s o).map (Except.map blank) := by
  cases o with
  | none => rfl
  | some c => exact congrArg some (h c rfl s none hs)

theorem item_blanked {s : Site} (hs : s.dialect = f.dialect) {i : Item} (h : ExprBlank f i.expr) :
    (i.blanked.write s).map blank = (i.write s).map blank := by
  obtain ⟨e, label⟩ := i
  rw [Item.blanked, Item.write, Item.write]
  exact map_blank_of_natural (fun ts => (Site.item_blank s label ts).symm) (h s hs)

theorem assignment_blanked {s : Site} (hs : s.dialect = f.dialect) {a : Assignment}
    (h : ExprBlank f a.value) : (a.blanked.write s).map blank = (a.write s).map blank := by
  obtain ⟨c, e⟩ := a
  rw [Assignment.blanked, Assignment.write, Assignment.write]
  exact map_blank_of_natural (fun ts => (Site.assignment_blank s c ts).symm) (h s hs)

theorem join_blanked {s : Site} (hs : s.dialect = f.dialect) {j : Join}
    (h : ∀ c ∈ j.condition, CondBlank f c) :
    (j.blanked.write s).map blank = (j.write s).map blank := by
  obtain ⟨kind, t, condition, shared⟩ := j
  rw [Join.blanked, Join.write, Join.write, ← Site.join_blank, ← Site.join_blank,
    cond?_blanked hs h]
  cases condition <;> rfl

theorem parts_blanked {s : Site} (hs : s.dialect = f.dialect) {q : Query}
    (h : Tree.Holds (ExprBlank f) (CondBlank f) q) :
    Site.blankParts (q.blanked.parts s) = Site.blankParts (q.parts s) := by
  have projection : (Item.writeEach s (Item.blankedEach q.projection)).map (Except.map blank) =
      (Item.writeEach s q.projection).map (Except.map blank) := by
    rw [Item.writeEach_eq_map, Item.writeEach_eq_map, Item.blankedEach_eq_map,
      List.map_map (f := Item.blanked)]
    exact map_blank_congr fun i hi => item_blanked hs (h.projection i hi)
  have joins : (Join.writeEach s (Join.blankedEach q.joins)).map (Except.map blank) =
      (Join.writeEach s q.joins).map (Except.map blank) := by
    rw [Join.writeEach_eq_map, Join.writeEach_eq_map, Join.blankedEach_eq_map,
      List.map_map (f := Join.blanked)]
    exact map_blank_congr fun j hj => join_blanked hs (h.joins j hj)
  have rows : (Expr.rows s (Expr.blankedRows q.rows)).map (fun row => row.map (Except.map blank)) =
      (Expr.rows s q.rows).map fun row => row.map (Except.map blank) := by
    rw [Expr.rows_eq_map, Expr.rows_eq_map, Expr.blankedRows_eq_map, List.map_map, List.map_map,
      List.map_map]
    refine List.map_congr_left fun row hrow => ?_
    simp only [Function.comp, List.map_map]
    exact List.map_congr_left fun e he => h.rows row hrow e he s hs
  have assignments :
      (Assignment.writeEach s (Assignment.blankedEach q.assignments)).map (Except.map blank) =
        (Assignment.writeEach s q.assignments).map (Except.map blank) := by
    rw [Assignment.writeEach_eq_map, Assignment.writeEach_eq_map, Assignment.blankedEach_eq_map,
      List.map_map (f := Assignment.blanked)]
    exact map_blank_congr fun a ha => assignment_blanked hs (h.assignments a ha)
  have filter := cond?_blanked hs h.filter
  have having := cond?_blanked hs h.having
  have grouping := exprs_blanked hs h.grouping
  have ordering := exprs_blanked hs h.ordering
  obtain ⟨_, _, _, _, _, _, _, _, _, _, _, _, _, _, _, _⟩ := q
  rw [Query.blanked]
  unfold Query.parts Site.blankParts
  dsimp only at projection joins rows assignments filter having grouping ordering ⊢
  rw [projection, joins, rows, assignments, filter, having, grouping, ordering]

theorem blanked_steps (f : Flavor) : Tree.Steps (ExprBlank f) (CondBlank f)
    (fun q => ∀ outer, (q.blanked.write f.dialect outer).map blank =
      (q.write f.dialect outer).map blank) where
  column c s hs := rfl
  star t s hs := rfl
  literal v t s hs := by
    rw [Expr.blanked, Expr.write, Expr.write, literal_blanked]
  list vs t s hs := by
    rw [Expr.blanked, Expr.write, Expr.write, List.isEmpty_map]
    split
    · rfl
    · rw [List.map_map]
      refine map_blank_of_natural (fun tss => ?_) (gather_blank_congr fun v _ => ?_)
      · rw [blank_enclosed, blank_listed]
      · exact literal_blanked s t v
  subquery q h s hs := by
    rw [Expr.blanked, Expr.write, Expr.write, hs]
    exact map_blank_of_natural blank_enclosed (h _)
  call head args h s hs := by
    rw [Expr.blanked, Expr.write, Expr.write, Expr.arguments_eq_map, Expr.arguments_eq_map,
      Expr.blankedEach_eq_map, List.map_map, ← Site.call_blank hs, ← Site.call_blank hs,
      List.map_map, List.map_map]
    have hargs := call_blankedExprs s head.function args fun e => (e.write s).map blank
    refine Eq.trans (congrArg _ (List.map_congr_left fun e he => ?_)) hargs
    exact congrArg (Argument.mk e.blanked) (h e he s hs)
  predicate e h s within hs := by
    rw [Cond.blanked, Cond.write, Cond.write]
    cases within with
    | none => exact map_blank_of_natural (b := blank) (fun ts => rfl) (h s hs)
    | some j =>
      have hop (misread : Rat → Bool) : s.operand misread e.blanked = s.operand misread e :=
        funext fun ts => by rw [Site.operand, Site.operand, precedence?_blanked]
      dsimp only
      rw [hop]
      exact map_blank_of_natural (fun ts => (Site.operand_blank s _ e ts).symm) (h s hs)
  group c h s within hs := by
    rw [Cond.blanked, Cond.write, Cond.write]
    exact map_blank_of_natural blank_enclosed (h s none hs)
  joined j cs h s within hs := by
    rw [Cond.blanked, Cond.write, Cond.write, Cond.writeEach_eq_map, Cond.writeEach_eq_map,
      Cond.blankedEach_eq_map, List.map_map]
    refine map_blank_of_natural (fun tss => ?_)
      (gather_blank_congr fun c hc => h c hc s (some j) hs)
    split
    · rw [blank_enclosed, blank_separated rfl]
    · rw [blank_separated rfl]
  query q h outer := by
    have hsite : q.blanked.site f.dialect outer = q.site f.dialect outer := by
      cases q
      rw [Query.blanked, Query.site, Query.ownTables, Join.blankedEach_eq_map, List.map_map]
      refine congrArg (fun l => Site.mk f.dialect (_ ++ l) outer) (List.map_congr_left ?_)
      rintro ⟨_, _, _, _⟩ -
      rfl
    rw [Query.write_eq, Query.write_eq, hsite, ← Site.statement_blank, ← Site.statement_blank,
      statement_blanked, parts_blanked (f := f) rfl h]

/-- Writing a query without its texts writes the same but for what the literals say. -/
theorem write_blanked (q : Query) (outer : List Table) :
    (q.blanked.write f.dialect outer).map blank = (q.write f.dialect outer).map blank :=
  (blanked_steps f).whole q outer

theorem write_carries (q : Query) (outer : List Table) :
    Writes f (q.write f.dialect outer) (q.data f.dialect outer) :=
  (carries_steps f).whole q outer

theorem write_woven (q : Query) (outer : List Table) {ts : Tokens}
    (h : q.write f.dialect outer = .ok ts) : Woven f ts (q.texts f.dialect) := by
  rw [← q.texts_data f.dialect outer]
  exact (write_carries q outer ts h).woven

end

end SqlDraft
