import SqlDraft.Proofs.Drafting.Made
import SqlDraft.Proofs.Typing.Rules
import SqlDraft.Query.Step

/-! Expressions as trees of columns, literals, lists of values, selects and calls, before anything
about them is checked (`Blueprint`), and the types that rules give to them (`Blueprint.HasType`). A
tree can be built just when the rules give it a type, and then that is the type of what is built
(`Blueprint.build_iff_hasType`). -/

namespace SqlDraft

open Sql Ty

mutual

inductive Blueprint where
  /-- A column declared with data of the kind, or of none known, be it as a scalar or as a column of
  it. -/
  | column (t : Table) (name : String) (declaredColumn : Bool) (k : Option Kind)
  /-- A literal given its type. -/
  | literal (v : Value) (k : Option Kind)
  | value (v : Value)
  | list (vs : List Value)
  | select (entries : List Blueprint.Entry)
  | call (b : Builtin) (args : List Blueprint)

/-- What a select lists: all of a table, or a tree under a name of its own or not. -/
inductive Blueprint.Entry where
  | star (t : Table)
  | listed (b : Blueprint) (label : Option String)

end

namespace Blueprint

/-! ## Building -/

mutual

/-- What the tree comes to as an operand: the parts of a call or a select are made before it is. -/
def operand : Blueprint → Outcome Operand
  | column t name declaredColumn k =>
    .ok (.expr (.column (.ofType t name (shaped declaredColumn k))))
  | literal v k => .ok (.expr (.literal v (.ofKind? k)))
  | value v => .ok (.value v)
  | list vs => .ok (.list vs)
  | select entries => do return .query (← Query.selectTerms (← listedTerms entries))
  | call b args => do return .expr (← b.signature.apply (← operands args))

def operands : List Blueprint → Outcome (List Operand)
  | [] => .ok []
  | b :: bs => do
    let o ← b.operand
    return o :: (← operands bs)

def listedTerm : Entry → Outcome ListedTerm
  | .star t => .ok (.star t)
  | .listed b none => do return .term (.operand (← b.operand))
  | .listed b (some label) => do return .labelled (.operand (← b.operand)) label

def listedTerms : List Entry → Outcome (List ListedTerm)
  | [] => .ok []
  | en :: ens => do
    let l ← listedTerm en
    return l :: (← listedTerms ens)

end

/-- The expression that the tree makes, in an argument of the method. -/
def build (method : String) (b : Blueprint) : Outcome Expr := do
  (← b.operand).toExpr method

/-! ## Typing -/

/-- Whether the tree makes an expression of its own accord. -/
def isExpr : Blueprint → Bool
  | column .. | literal .. | call .. => true
  | _ => false

def isList : Blueprint → Bool
  | list _ => true
  | _ => false

mutual

/-- The type that the tree has by the rules. -/
inductive HasType : Blueprint → Ty → Prop
  | column {t : Table} {name : String} {c : Bool} {k : Option Kind} :
      HasType (column t name c k) (.collection (.ofKind? k))
  | literal {v : Value} {k : Option Kind} : HasType (literal v k) (.ofKind? k)
  | value {v : Value} : HasType (value v) v.type
  | list {vs : List Value} {v : Value} {k : Kind} (hv : v ∈ vs) (hk : v.kind? = some k)
      (h : ∀ w ∈ vs, ∀ j ∈ w.kind?, j = k) : HasType (list vs) (.collection (.concrete k))
  | nulls {vs : List Value} (hne : vs ≠ []) (h : ∀ v ∈ vs, v.kind? = none) :
      HasType (list vs) (.collection .any)
  | sole {en : Entry} {t : Ty} (h : Makes en t) : HasType (select [en]) t
  | several {entries : List Entry} {ts : List Ty} (h : List.Forall₂ Makes entries ts)
      (hlength : entries.length ≠ 1) : HasType (select entries) (.collection .any)
  | call {b : Builtin} {args : List Blueprint} {ts : List Ty} {t : Ty}
      (h : List.Forall₂ HasType args ts) (hb : b.Gives ts t) : HasType (call b args) t

/-- The type of the column that the entry makes of a select. -/
inductive Makes : Entry → Ty → Prop
  | star {t : Table} : Makes (.star t) (.collection .any)
  | plain {b : Blueprint} {t : Ty} (h : HasType b t) (hb : b.isList = false) :
      Makes (.listed b none) (.collection t.inner)
  | labelled {b : Blueprint} {t : Ty} {label : String} (h : HasType b t) (hb : b.isExpr = true) :
      Makes (.listed b (some label)) (.collection t.inner)

end

/-! ## Induction -/

section Induction

variable {P : Blueprint → Prop} (column : ∀ t name c k, P (column t name c k))
  (literal : ∀ v k, P (literal v k)) (value : ∀ v, P (value v)) (list : ∀ vs, P (list vs))
  (select : ∀ entries : List Entry, (∀ b label, .listed b label ∈ entries → P b) →
    P (select entries))
  (call : ∀ b args, (∀ a ∈ args, P a) → P (call b args))

include column literal value list select call

/-- A property of every tree that has it if the trees listed, or the arguments, in it do. -/
theorem induction (b : Blueprint) : P b := by
  refine @Blueprint.rec P (fun en => ∀ b label, en = .listed b label → P b)
    (fun entries => ∀ b label, .listed b label ∈ entries → P b) (fun args => ∀ a ∈ args, P a)
    column literal value list select call ?_ ?_ ?_ ?_ ?_ ?_ b
  · rintro t b label ⟨⟩
  · rintro b label hb _ _ ⟨⟩
    exact hb
  · rintro b label ⟨⟩
  · intro en entries hen hentries b label hmem
    rcases List.mem_cons.mp hmem with rfl | hmem
    · exact hen b label rfl
    · exact hentries b label hmem
  · exact List.forall_mem_nil _
  · exact fun a args ha hargs => List.forall_mem_cons.mpr ⟨ha, hargs⟩

end Induction

/-! ## What is built -/

theorem operands_eq_mapM (bs : List Blueprint) : operands bs = bs.mapM operand := by
  induction bs with
  | nil => rfl
  | cons b bs ih => rw [operands, ih, List.mapM_cons]

theorem listedTerms_eq_mapM (entries : List Entry) :
    listedTerms entries = entries.mapM listedTerm := by
  induction entries with
  | nil => rfl
  | cons en entries ih => rw [listedTerms, ih, List.mapM_cons]

/-- The item that an entry makes of a select. -/
def item (en : Entry) : Outcome Item := listedTerm en >>= ListedTerm.eval >>= Listed.item

theorem build_call_eq_ok_iff {method : String} {b : Builtin} {args : List Blueprint} {e : Expr} :
    (call b args).build method = .ok e ↔
      ∃ es, List.Forall₂ (fun a e => a.build b.name = .ok e) args es ∧
        b.signature.applyExprs es = .ok e := by
  have hargs {es : List Expr} : List.Forall₂ (fun a e => a.build b.name = .ok e) args es ↔
      ∃ os, operands args = .ok os ∧ os.mapM (Operand.toExpr b.name) = .ok es := by
    rw [← mapM_eq_ok_iff_forall₂, operands_eq_mapM, ← bind_eq_ok_iff, mapM_bind_mapM_eq_ok_iff]
    rfl
  simp only [hargs]
  constructor
  · intro h
    obtain ⟨o, ho, h⟩ := bind_eq_ok_iff.mp h
    obtain ⟨os, hos, ho⟩ := bind_eq_ok_iff.mp ho
    obtain ⟨e', he', ho⟩ := bind_eq_ok_iff.mp ho
    obtain ⟨es, hes, he'⟩ := bind_eq_ok_iff.mp he'
    cases ho
    cases h
    exact ⟨es, ⟨os, hos, hes⟩, he'⟩
  · rintro ⟨es, ⟨os, hos, hes⟩, he⟩
    refine bind_eq_ok_iff.mpr ⟨.expr e, bind_eq_ok_iff.mpr ⟨os, hos, ?_⟩, rfl⟩
    exact bind_eq_ok_iff.mpr ⟨e, bind_eq_ok_iff.mpr ⟨es, hes, he⟩, rfl⟩

theorem build_select_eq_ok_iff {method : String} {entries : List Entry} {e : Expr} :
    (select entries).build method = .ok e ↔
      ∃ items, List.Forall₂ (fun en i => item en = .ok i) entries items ∧
        e = .subquery { Query.ofStatement .select with projection := items } := by
  have hitems {items : List Item} : List.Forall₂ (fun en i => item en = .ok i) entries items ↔
      ∃ ls, (∃ ts, listedTerms entries = .ok ts ∧ ts.mapM ListedTerm.eval = .ok ls) ∧
        ls.mapM Listed.item = .ok items := by
    rw [← mapM_eq_ok_iff_forall₂, listedTerms_eq_mapM]
    simp only [← bind_eq_ok_iff, mapM_bind_mapM_eq_ok_iff]
    rfl
  simp only [hitems]
  constructor
  · intro h
    obtain ⟨o, ho, h⟩ := bind_eq_ok_iff.mp h
    obtain ⟨ts, hts, ho⟩ := bind_eq_ok_iff.mp ho
    obtain ⟨q, hq, ho⟩ := bind_eq_ok_iff.mp ho
    obtain ⟨ls, hls, hq⟩ := bind_eq_ok_iff.mp hq
    obtain ⟨items, hitems, hq⟩ := bind_eq_ok_iff.mp hq
    cases hq
    cases ho
    cases h
    exact ⟨items, ⟨ls, ⟨ts, hts, hls⟩, hitems⟩, rfl⟩
  · rintro ⟨items, ⟨ls, ⟨ts, hts, hls⟩, hitems⟩, rfl⟩
    refine bind_eq_ok_iff.mpr ⟨.query _, bind_eq_ok_iff.mpr ⟨ts, hts, ?_⟩, rfl⟩
    refine bind_eq_ok_iff.mpr ⟨_, bind_eq_ok_iff.mpr ⟨ls, hls, ?_⟩, rfl⟩
    exact bind_eq_ok_iff.mpr ⟨items, hitems, rfl⟩

/-- What an operand made of a tree tells of the tree. -/
theorem operand_eq_ok {b : Blueprint} {o : Operand} (h : b.operand = .ok o) :
    (b.isExpr = true ∧ b.isList = false ∧ ∃ e, o = .expr e ∧ ∀ vs t, e ≠ .list vs t) ∨
      (∃ v, b = value v ∧ o = .value v) ∨ (∃ vs, b = list vs ∧ o = .list vs) ∨
      ∃ entries q, b = select entries ∧ o = .query q := by
  cases b with
  | column => cases h; exact .inl ⟨rfl, rfl, _, rfl, by simp⟩
  | literal => cases h; exact .inl ⟨rfl, rfl, _, rfl, by simp⟩
  | value v => cases h; exact .inr (.inl ⟨v, rfl, rfl⟩)
  | list vs => cases h; exact .inr (.inr (.inl ⟨vs, rfl, rfl⟩))
  | select entries =>
    obtain ⟨ts, -, h⟩ := bind_eq_ok_iff.mp h
    obtain ⟨q, -, h⟩ := bind_eq_ok_iff.mp h
    cases h
    exact .inr (.inr (.inr ⟨entries, q, rfl, rfl⟩))
  | call b args =>
    obtain ⟨os, -, h⟩ := bind_eq_ok_iff.mp h
    obtain ⟨e, he, h⟩ := bind_eq_ok_iff.mp h
    obtain ⟨es, -, he⟩ := bind_eq_ok_iff.mp he
    obtain ⟨head, -, -, rfl⟩ := Signature.applyExprs_eq_ok he
    cases h
    exact .inl ⟨rfl, rfl, _, rfl, by simp⟩

/-- No select lists a list of values. -/
theorem item_list_ne_ok {vs : List Value} {i : Item} :
    Listed.item (.operand (.list vs)) ≠ .ok i := by
  intro h
  obtain ⟨e, he, h⟩ := bind_eq_ok_iff.mp h
  obtain ⟨t, -, rfl⟩ := map_eq_ok_iff.mp he
  cases h

theorem item_plain_eq_ok_iff {b : Blueprint} {i : Item} : item (.listed b none) = .ok i ↔
    ∃ e, b.build "select" = .ok e ∧ b.isList = false ∧ i = ⟨e, none⟩ := by
  have hitem : item (.listed b none) = b.operand >>= fun o => Listed.item (.operand o) := by
    show (b.operand >>= _) >>= _ >>= _ = _
    cases b.operand <;> rfl
  rw [hitem, build]
  cases ho : b.operand with
  | error => simp [bind, Except.bind]
  | ok o =>
    rcases operand_eq_ok ho with
      ⟨-, hb, e, rfl, he⟩ | ⟨v, rfl, rfl⟩ | ⟨vs, rfl, rfl⟩ | ⟨_, q, rfl, rfl⟩
    · have hlisted : Listed.item (.operand (.expr e)) = .ok ⟨e, none⟩ := by
        cases e with
        | list vs t => exact absurd rfl (he vs t)
        | _ => rfl
      show Listed.item (.operand (.expr e)) = _ ↔ ∃ e', Except.ok e = Except.ok e' ∧ _
      simp [hlisted, hb, eq_comm]
    · show Except.ok _ = _ ↔ ∃ e', Except.ok _ = Except.ok e' ∧ _
      simp [isList, eq_comm]
    · exact iff_of_false item_list_ne_ok fun ⟨_, _, h, _⟩ => nomatch h
    · show Except.ok _ = _ ↔ ∃ e', Except.ok _ = Except.ok e' ∧ _
      simp [isList, eq_comm]

theorem item_labelled_eq_ok_iff {b : Blueprint} {label : String} {i : Item} :
    item (.listed b (some label)) = .ok i ↔
      ∃ e, b.build "select" = .ok e ∧ b.isExpr = true ∧ i = ⟨e, some label⟩ := by
  have hitem : item (.listed b (some label)) =
      b.operand >>= fun o => ListedTerm.eval (.labelled (.operand o) label) >>= Listed.item := by
    show (b.operand >>= _) >>= _ >>= _ = _
    cases b.operand <;> rfl
  rw [hitem, build]
  cases ho : b.operand with
  | error => simp [bind, Except.bind]
  | ok o =>
    rcases operand_eq_ok ho with
      ⟨hb, -, e, rfl, -⟩ | ⟨v, rfl, rfl⟩ | ⟨vs, rfl, rfl⟩ | ⟨_, q, rfl, rfl⟩
    · show Except.ok _ = _ ↔ ∃ e', Except.ok e = Except.ok e' ∧ _
      simp [hb, eq_comm]
    · -- a value beside a text is taken for a list of the two
      exact iff_of_false (@item_list_ne_ok [v, .text label] i) fun ⟨_, _, h, _⟩ => nomatch h
    · exact iff_of_false (fun h => nomatch h) fun ⟨_, _, h, _⟩ => nomatch h
    · exact iff_of_false (fun h => nomatch h) fun ⟨_, _, h, _⟩ => nomatch h

/-! ## Lists of values -/

/-- The kinds of all values but the nulls are the one that the first of them has. -/
theorem commonKind_eq_ok_iff {method : String} {before k : Option Kind} {vs : List Value} :
    Value.commonKind method before vs = .ok k ↔
      k = (before.toList ++ vs.filterMap Value.kind?).head? ∧
        ∀ j ∈ before.toList ++ vs.filterMap Value.kind?, k = some j := by
  induction vs generalizing before with
  | nil => cases before <;> simp [Value.commonKind, eq_comm]
  | cons v vs ih =>
    rw [Value.commonKind, List.filterMap_cons]
    cases v.kind? with
    | none => exact ih
    | some κ =>
      cases before with
      | none => exact ih
      | some j =>
        dsimp only
        split
        · next h =>
          subst h
          rw [ih]
          simp
        · next h =>
          refine iff_of_false (by simp) fun ⟨_, hall⟩ => h ?_
          have hj : k = some j := hall j List.mem_cons_self
          have hκ : k = some κ := hall κ (List.mem_cons_of_mem _ List.mem_cons_self)
          exact Option.some.inj (hj.symm.trans hκ)

theorem listType_eq_ok_iff {method : String} {vs : List Value} {t : Ty} :
    Value.listType method vs = .ok t ↔ (list vs).HasType t := by
  unfold Value.listType
  split
  · next h =>
    obtain rfl := List.isEmpty_iff.mp h
    refine iff_of_false (by simp) fun h => ?_
    cases h with
    | list hv => cases hv
    | nulls hne => exact hne rfl
  · next hne =>
    simp only [map_eq_ok_iff, commonKind_eq_ok_iff, Option.toList_none, List.nil_append]
    constructor
    · rintro ⟨k, ⟨hk, hall⟩, rfl⟩
      cases k with
      | none =>
        refine .nulls (fun h => hne (List.isEmpty_iff.mpr h)) ?_
        exact List.filterMap_eq_nil_iff.mp (List.head?_eq_none_iff.mp hk.symm)
      | some k =>
        obtain ⟨v, hv, hvk⟩ := List.mem_filterMap.mp (List.mem_of_head? hk.symm)
        refine .list hv hvk fun w hw j hj => ?_
        exact (Option.some.inj (hall j (List.mem_filterMap.mpr ⟨w, hw, hj⟩))).symm
    · intro h
      cases h with
      | @list _ v k hv hk h =>
        have hall : ∀ j ∈ vs.filterMap Value.kind?, j = k := fun j hj =>
          let ⟨w, hw, hj⟩ := List.mem_filterMap.mp hj
          h w hw j hj
        refine ⟨some k, ⟨?_, fun j hj => congrArg some (hall j hj).symm⟩, rfl⟩
        obtain ⟨j, rest, hks⟩ :=
          List.exists_cons_of_ne_nil (List.ne_nil_of_mem (List.mem_filterMap.mpr ⟨v, hv, hk⟩))
        rw [hks] at hall ⊢
        rw [hall j List.mem_cons_self]
        rfl
      | nulls _ h =>
        rw [List.filterMap_eq_nil_iff.mpr h]
        exact ⟨none, ⟨rfl, List.forall_mem_nil _⟩, rfl⟩

/-! ## What is built has the type given by the rules -/

/-- A relation that goes by way of something else for each member does so for the list. -/
theorem forall₂_iff_exists_map {α β γ : Type} {R : α → γ → Prop} {P : α → β → Prop} {g : β → γ}
    {as : List α} (cs : List γ) (h : ∀ a ∈ as, ∀ c, (∃ b, P a b ∧ g b = c) ↔ R a c) :
    List.Forall₂ R as cs ↔ ∃ bs, List.Forall₂ P as bs ∧ bs.map g = cs := by
  constructor
  · intro hr
    induction hr with
    | nil => exact ⟨[], .nil, rfl⟩
    | @cons a c as cs hr _ ih =>
      obtain ⟨ha, has⟩ := List.forall_mem_cons.mp h
      obtain ⟨b, hb, rfl⟩ := (ha c).mpr hr
      obtain ⟨bs, hbs, rfl⟩ := ih has
      exact ⟨b :: bs, .cons hb hbs, rfl⟩
  · rintro ⟨bs, hbs, rfl⟩
    induction hbs with
    | nil => exact .nil
    | @cons a b as bs hb _ ih =>
      obtain ⟨ha, has⟩ := List.forall_mem_cons.mp h
      exact .cons ((ha _).mp ⟨b, hb, rfl⟩) (ih has)

theorem HasType.isResolved {b : Blueprint} : ∀ {t : Ty}, b.HasType t → t.isResolved = true := by
  induction b using Blueprint.induction with
  | column => rintro _ ⟨⟩; exact isResolved_shaped (c := true)
  | literal => rintro _ ⟨⟩; exact isResolved_ofKind?
  | value => rintro _ ⟨⟩; exact isResolved_ofKind?
  | list => rintro _ (⟨⟩ | ⟨⟩) <;> rfl
  | select entries ih =>
    intro t h
    cases h with
    | sole h =>
      cases h with
      | star => rfl
      | plain h => exact isResolved_collection_inner (ih _ _ List.mem_cons_self h)
      | labelled h => exact isResolved_collection_inner (ih _ _ List.mem_cons_self h)
    | several => rfl
  | call b args ih =>
    intro t h
    cases h with
    | call h hb =>
      refine hb.isResolved fun s hs => ?_
      obtain ⟨a, ha, hs⟩ := exists_of_mem_forall₂ h hs
      exact ih a ha hs

/-- A call is built just when its function gives a type for those that its arguments have. -/
theorem build_call_iff {b : Builtin} {args : List Blueprint} {method : String} {t : Ty}
    (hargs : ∀ a ∈ args, ∀ t, (∃ e, a.build b.name = .ok e ∧ e.type = t) ↔ a.HasType t) :
    (∃ e, (call b args).build method = .ok e ∧ e.type = t) ↔ (call b args).HasType t := by
  have resolved {es : List Expr} (h : List.Forall₂ HasType args (es.map Expr.type)) :
      ∀ e ∈ es, e.type.isResolved = true := fun e he =>
    let ⟨_, _, ha⟩ := exists_of_mem_forall₂ h (List.mem_map_of_mem he)
    ha.isResolved
  have htypes {ts : List Ty} := forall₂_iff_exists_map ts hargs
  constructor
  · rintro ⟨e, he, rfl⟩
    obtain ⟨es, hes, he⟩ := build_call_eq_ok_iff.mp he
    have h := htypes.mpr ⟨es, hes, rfl⟩
    exact .call h ((Builtin.exists_applyExprs_iff (resolved h)).mp ⟨e, he, rfl⟩)
  · intro h
    cases h with
    | call h hb =>
      obtain ⟨es, hes, rfl⟩ := htypes.mp h
      obtain ⟨e, he, rfl⟩ := (Builtin.exists_applyExprs_iff (resolved h)).mpr hb
      exact ⟨e, build_call_eq_ok_iff.mpr ⟨es, hes, he⟩, rfl⟩

/-- An item is made just when the rules give its column a type. -/
theorem item_iff_makes {en : Entry} {t : Ty} (h : ∀ b label, en = .listed b label → ∀ t,
    (∃ e, b.build "select" = .ok e ∧ e.type = t) ↔ b.HasType t) :
    (∃ i, item en = .ok i ∧ i.columnType = t) ↔ Makes en t := by
  obtain t' | ⟨b, - | label⟩ := en
  · constructor
    · rintro ⟨i, ⟨⟩, rfl⟩
      exact .star
    · rintro ⟨⟩
      exact ⟨_, rfl, rfl⟩
  · constructor
    · rintro ⟨i, hi, rfl⟩
      obtain ⟨e, he, hb, rfl⟩ := item_plain_eq_ok_iff.mp hi
      exact .plain ((h b none rfl _).mp ⟨e, he, rfl⟩) hb
    · intro hmakes
      cases hmakes with
      | plain ht hb =>
        obtain ⟨e, he, rfl⟩ := (h b none rfl _).mpr ht
        exact ⟨_, item_plain_eq_ok_iff.mpr ⟨e, he, hb, rfl⟩, rfl⟩
  · constructor
    · rintro ⟨i, hi, rfl⟩
      obtain ⟨e, he, hb, rfl⟩ := item_labelled_eq_ok_iff.mp hi
      exact .labelled ((h b (some label) rfl _).mp ⟨e, he, rfl⟩) hb
    · intro hmakes
      cases hmakes with
      | labelled ht hb =>
        obtain ⟨e, he, rfl⟩ := (h b (some label) rfl _).mpr ht
        exact ⟨_, item_labelled_eq_ok_iff.mpr ⟨e, he, hb, rfl⟩, rfl⟩

/-- A select is built just when each of its items is made, and the one item of it, if it is one,
tells the type. -/
theorem build_select_iff {entries : List Entry} {method : String} {t : Ty}
    (h : ∀ en ∈ entries, ∀ t, (∃ i, item en = .ok i ∧ i.columnType = t) ↔ Makes en t) :
    (∃ e, (select entries).build method = .ok e ∧ e.type = t) ↔ (select entries).HasType t := by
  have htypes {ts : List Ty} := forall₂_iff_exists_map ts h
  have several {items : List Item} (hlength : items.length ≠ 1) :
      Query.soleType items = .collection .any := by
    match items, hlength with
    | [], _ => rfl
    | [_], h => exact absurd rfl h
    | _ :: _ :: _, _ => rfl
  constructor
  · rintro ⟨e, he, rfl⟩
    obtain ⟨items, hitems, rfl⟩ := build_select_eq_ok_iff.mp he
    show HasType _ (Query.soleType items)
    by_cases hlength : items.length = 1
    · obtain ⟨i, rfl⟩ := List.length_eq_one_iff.mp hlength
      cases hitems with
      | cons hi hnil =>
        cases hnil
        exact .sole ((h _ List.mem_cons_self _).mp ⟨i, hi, rfl⟩)
    · rw [several hlength]
      exact .several (htypes.mpr ⟨items, hitems, rfl⟩) (by rwa [hitems.length_eq])
  · intro ht
    cases ht with
    | sole ht =>
      obtain ⟨i, hi, rfl⟩ := (h _ List.mem_cons_self _).mpr ht
      exact ⟨_, build_select_eq_ok_iff.mpr ⟨[i], .cons hi .nil, rfl⟩, rfl⟩
    | several ht hlength =>
      obtain ⟨items, hitems, -⟩ := htypes.mp ht
      refine ⟨_, build_select_eq_ok_iff.mpr ⟨items, hitems, rfl⟩, several ?_⟩
      rwa [← hitems.length_eq]

/-- A tree can be built just when the rules give it a type, and that is the type of what is
built. -/
theorem build_iff_hasType (b : Blueprint) : ∀ (method : String) (t : Ty),
    (∃ e, b.build method = .ok e ∧ e.type = t) ↔ b.HasType t := by
  induction b using Blueprint.induction with
  | column tbl name c k =>
    refine fun _ t => ⟨?_, ?_⟩
    · rintro ⟨_, ⟨⟩, rfl⟩
      show HasType _ (.collection (shaped c k).inner)
      rw [inner_shaped]
      exact .column
    · rintro ⟨⟩
      exact ⟨_, rfl, congrArg Ty.collection inner_shaped⟩
  | literal =>
    refine fun _ t => ⟨?_, ?_⟩
    · rintro ⟨_, ⟨⟩, rfl⟩
      exact .literal
    · rintro ⟨⟩
      exact ⟨_, rfl, rfl⟩
  | value =>
    refine fun _ t => ⟨?_, ?_⟩
    · rintro ⟨_, ⟨⟩, rfl⟩
      exact .value
    · rintro ⟨⟩
      exact ⟨_, rfl, rfl⟩
  | list vs =>
    refine fun method t => ⟨?_, ?_⟩
    · rintro ⟨e, he, rfl⟩
      obtain ⟨t, ht, rfl⟩ := map_eq_ok_iff.mp he
      exact listType_eq_ok_iff.mp ht
    · intro ht
      exact ⟨.list vs t, map_eq_ok_iff.mpr ⟨t, listType_eq_ok_iff.mpr ht, rfl⟩, rfl⟩
  | select entries ih =>
    refine fun _ _ => build_select_iff fun en hen _ => item_iff_makes ?_
    rintro b label rfl
    exact ih b label hen "select"
  | call b args ih => exact fun _ _ => build_call_iff fun a ha => ih a ha _

end Blueprint

end SqlDraft
