import SqlDraft.Proofs.Condition.Reading
import SqlDraft.Proofs.Drafting.Action
import SqlDraft.Query.Step

/-! Drafting a chain. A step either adds a condition to one clause, or it leaves all conditions as
they are (`Step.apply_of_clause?_eq_none`); so the calls of a chain leave behind the condition of
the chain, whatever other calls stand between them (`Chain.Backed.applyAll`). -/

namespace SqlDraft

open Sql

/-! ## Calls as steps -/

mutual

/-- The calls of a chain, for the clauses of methods that are a scope's own or those of rows. -/
def Chain.steps (t : Table) (clause : Bool → Clause) : Chain → List Step
  | .first m p => [p.step t (clause m.own) m.link]
  | .more C m p => C.steps t clause ++ [p.step t (clause m.own) m.link]

def Part.step (t : Table) (K : Clause) (link : Link) : Part → Step
  | .sentence S => .restrict K link (S.formula.term t)
  | .draft C => .restrictGroup K link (.steps (C.steps t fun own => if own then K else .filter))

end

namespace Step

/-- The clause that a step adds a condition to. -/
def clause? : Step → Option Clause
  | restrict K .. | restrictGroup K .. => some K
  | _ => none

/-- Whether a step adds a join. -/
def joins : Step → Bool
  | join .. | joinDraft .. => true
  | _ => false

/-- The steps that add to the condition of a clause. That of a join is added to until the next
join. -/
def calls (K : Clause) (xs : List Step) : List Step :=
  (xs.takeWhile fun x => K ≠ .pairing || !x.joins).filter fun x => x.clause? = some K

theorem clause?_eq_none_of_joins {x : Step} (h : x.joins = true) : x.clause? = none := by
  cases x <;> first | rfl | cases h

theorem calls_cons_of_joins {x : Step} (h : x.joins = true) (xs : List Step) :
    calls .pairing (x :: xs) = [] := by
  rw [calls, List.takeWhile_cons_of_neg (by simp [h]), List.filter_nil]

theorem calls_cons {K : Clause} {x : Step} (h : ¬ (K = .pairing ∧ x.joins = true))
    (xs : List Step) :
    calls K (x :: xs) = (if x.clause? = some K then [x] else []) ++ calls K xs := by
  have hx : (decide (K ≠ .pairing) || !x.joins) = true := by simpa [imp_iff_not_or] using h
  rw [calls, List.takeWhile_cons, if_pos hx, List.filter_cons, calls]
  simp only [decide_eq_true_eq]
  split <;> rfl

variable {q r : Query}

theorem applyAll_append (xs ys : List Step) (q : Query) :
    applyAll (xs ++ ys) q = applyAll xs q >>= applyAll ys := by
  induction xs generalizing q with
  | nil => rfl
  | cons x xs ih =>
    rw [List.cons_append, applyAll, applyAll]
    cases x.apply q with
    | error e => rfl
    | ok q' => exact ih q'

theorem applyAll_append_eq_ok {xs ys : List Step} (h : applyAll (xs ++ ys) q = .ok r) :
    ∃ p, applyAll xs q = .ok p ∧ applyAll ys p = .ok r :=
  bind_eq_ok_iff.mp (applyAll_append xs ys q ▸ h)

theorem applyAll_cons_eq_ok {x : Step} {xs : List Step} (h : applyAll (x :: xs) q = .ok r) :
    ∃ p, x.apply q = .ok p ∧ applyAll xs p = .ok r := by
  rw [applyAll] at h
  exact bind_eq_ok_iff.mp h

theorem applyAll_singleton_eq_ok {x : Step} (h : applyAll [x] q = .ok r) : x.apply q = .ok r := by
  obtain ⟨p, hp, h⟩ := applyAll_cons_eq_ok h
  cases h
  exact hp

/-- The method that a step calls. -/
def method : Step → Method
  | target _ => .target
  | restrict K link _ | restrictGroup K link _ => .condition K link
  | join kind _ | joinDraft kind _ _ => .join kind
  | share _ => .shared
  | groupBy _ => .groupBy
  | orderBy _ => .orderBy
  | fetch _ => .fetch
  | skip _ => .skip
  | distinct => .distinct
  | values _ => .values
  | assign _ | assignColumn _ _ => .set
  | onlyIfExists => .ifExists
  | onlyIfMissing => .ifNotExists

theorem clause?_eq_some_iff {x : Step} {K : Clause} :
    x.clause? = some K ↔ ∃ link, x.method = .condition K link := by
  cases x <;> simp [clause?, method]

theorem joins_iff {x : Step} : x.joins = true ↔ ∃ kind, x.method = .join kind := by
  cases x <;> simp [joins, method]

/-- A step is its method with the arguments that the terms stand for. -/
theorem exists_action {x : Step} (h : x.apply q = .ok r) :
    ∃ a : Query.Action, a.method = x.method ∧ a.apply q = .ok r := by
  cases x with
  | target t => exact ⟨.target t, rfl, h⟩
  | restrict K link condition =>
    obtain ⟨o, -, h⟩ := bind_eq_ok_iff.mp h
    exact ⟨.restrict K link (.operand o), rfl, h⟩
  | restrictGroup K link draft => exact ⟨.restrict K link (.draft draft.run), rfl, h⟩
  | join kind t => exact ⟨.join kind t none, rfl, h⟩
  | joinDraft kind t draft => exact ⟨.join kind t (some draft.run), rfl, h⟩
  | share columns => exact ⟨.share columns, rfl, h⟩
  | groupBy terms =>
    obtain ⟨es, -, h⟩ := bind_eq_ok_iff.mp h
    exact ⟨.groupBy es, rfl, h⟩
  | orderBy terms =>
    obtain ⟨es, -, h⟩ := bind_eq_ok_iff.mp h
    exact ⟨.orderBy es, rfl, h⟩
  | fetch n => exact ⟨.fetch n, rfl, h⟩
  | skip n => exact ⟨.skip n, rfl, h⟩
  | distinct => exact ⟨.distinct, rfl, h⟩
  | values rows =>
    obtain ⟨records, -, h⟩ := bind_eq_ok_iff.mp h
    exact ⟨.values records, rfl, h⟩
  | assign fields =>
    obtain ⟨record, -, h⟩ := bind_eq_ok_iff.mp h
    exact ⟨.assign record, rfl, h⟩
  | assignColumn c value =>
    obtain ⟨c, -, h⟩ := bind_eq_ok_iff.mp h
    obtain ⟨o, -, h⟩ := bind_eq_ok_iff.mp h
    exact ⟨.assignColumn c o, rfl, h⟩
  | onlyIfExists => exact ⟨.onlyIfExists, rfl, h⟩
  | onlyIfMissing => exact ⟨.onlyIfMissing, rfl, h⟩

/-- A step that adds no condition leaves those there are; only a join brings one of its own. -/
theorem apply_of_clause?_eq_none {x : Step} (hx : x.clause? = none) (h : x.apply q = .ok r) :
    r.command = q.command ∧ r.filter = q.filter ∧ r.having = q.having ∧
      ∃ added, r.joins.map Join.condition = q.joins.map Join.condition ++ added ∧
        added.length = x.joins.toNat := by
  obtain ⟨a, ha, h⟩ := exists_action h
  have hedited := (Query.Action.edited h).2
  rw [ha] at hedited
  have hcondition {K : Clause} {link : Link} : x.method ≠ .condition K link := by
    intro hm
    rw [clause?_eq_some_iff.mpr ⟨link, hm⟩] at hx
    cases hx
  generalize hm : x.method = m at hedited hcondition
  cases hedited with
  | @field _ f hf hjoins v =>
    have hkept (f' : Query.Field) (hne : f ≠ f') : (q.withField f v).field f' = q.field f' :=
      Query.field_withField_of_ne hne v
    have hjoin : x.joins = false := by
      refine Bool.eq_false_of_not_eq_true fun hx => hjoins ?_
      obtain ⟨kind, hkind⟩ := joins_iff.mp hx
      rw [← hf, ← hm, hkind]
      rfl
    refine ⟨Query.command_withField v, hkept .filter ?_, hkept .having ?_, [], ?_,
      by rw [hjoin]; rfl⟩
    · rintro rfl
      cases m <;> first | cases hf | exact hcondition rfl
    · rintro rfl
      cases m <;> first | cases hf | exact hcondition rfl
    · rw [List.append_nil]
      exact congrArg (List.map Join.condition) (hkept .joins hjoins)
  | join j => exact ⟨rfl, rfl, rfl, [j.condition], by simp, by rw [joins_iff.mpr ⟨_, hm⟩]; rfl⟩
  | pairing => exact absurd rfl hcondition
  | shared columns hjoins =>
    have hjoin : x.joins = false := by
      refine Bool.eq_false_of_not_eq_true fun hx => ?_
      obtain ⟨kind, hkind⟩ := joins_iff.mp hx
      cases hm.symm.trans hkind
    exact ⟨rfl, rfl, rfl, [], by simp [hjoins], by rw [hjoin]; rfl⟩

/-- A step that adds a condition adds it to its clause. -/
theorem apply_of_clause? {x : Step} {K : Clause} (hx : x.clause? = some K) (h : x.apply q = .ok r) :
    ∃ link added, q.command.admits (.condition K link) = true ∧
      q.Restricts K link.joiner added r := by
  cases x with
  | restrict L link condition =>
    cases hx
    obtain ⟨o, -, h⟩ := bind_eq_ok_iff.mp h
    obtain ⟨hadmits, added, -, hr⟩ := Query.restrict_eq_ok h
    exact ⟨link, added, hadmits, hr⟩
  | restrictGroup L link draft =>
    cases hx
    obtain ⟨hadmits, added, -, hr⟩ := Query.restrict_eq_ok h
    exact ⟨link, added, hadmits, hr⟩
  | _ => cases hx

end Step

/-! ## The condition of a clause -/

namespace Query

/-- The condition of a clause, and for joins of the one at the index. -/
def condition? (q : Query) (i : Nat) : Clause → Option Cond
  | .filter => q.filter
  | .having => q.having
  | .pairing => (q.joins.map Join.condition)[i]?.join

/-- A draft that keeps the conditions of each clause apart. -/
def Sorts (q : Query) : Prop := ∀ K, q.command ≠ .scope (.condition K)

variable {q r : Query} {K L : Clause} {j : Joiner} {added : Cond} {i : Nat}

theorem Sorts.holds (h : q.Sorts) {link : Link}
    (hadmits : q.command.admits (.condition K link) = true) : q.command.holds K = true := by
  unfold Sorts at h
  unfold Command.holds
  generalize q.command = c at h hadmits
  rcases c with s | K' | -
  · cases s <;> cases K <;> first | rfl | cases hadmits
  · exact absurd rfl (h K')
  · cases K <;> first | rfl | cases hadmits

theorem Restricts.command_eq (h : q.Restricts K j added r) : r.command = q.command := by
  cases h <;> rfl

theorem Restricts.joins_length (h : q.Restricts K j added r) : r.joins.length = q.joins.length := by
  cases h with
  | having => rfl
  | pairing _ _ hjoins => simp [hjoins]
  | filter => rfl

/-- In the draft of a group all conditions are kept in one place. -/
theorem Restricts.filter_eq (h : q.Restricts K j added r) (hq : q.command = .scope (.condition L)) :
    r.filter = some (.combine q.filter j added) := by
  cases h with
  | having _ hholds => simp [Command.holds, hq] at hholds
  | pairing _ hholds => simp [Command.holds, hq] at hholds
  | filter => rfl

theorem Restricts.condition?_eq (h : q.Restricts K j added r) (hholds : q.command.holds K = true)
    (hi : K = .pairing → q.joins.length = i + 1) :
    r.condition? i K = some (.combine (q.condition? i K) j added) := by
  cases h with
  | having hK =>
    subst hK
    rfl
  | @pairing front last hK _ hjoins =>
    subst hK
    have hfront : front.length = i := by simpa [hjoins] using hi rfl
    subst hfront
    simp [condition?, hjoins]
  | filter hK =>
    rcases hK with rfl | hK
    · rfl
    · rw [hholds] at hK
      cases hK

/-- The conditions of other clauses stay, and those of all joins but the last. -/
theorem Restricts.condition?_of_ne (h : q.Restricts L j added r) (hholds : q.command.holds L = true)
    (hK : K ≠ L ∨ K = .pairing ∧ i + 1 < q.joins.length) :
    r.condition? i K = q.condition? i K := by
  cases h with
  | having hL =>
    subst hL
    cases K <;> simp [condition?] at hK ⊢
  | @pairing front last hL _ hjoins =>
    subst hL
    cases K with
    | filter => rfl
    | having => rfl
    | pairing =>
      have hlt : i < front.length := by simpa [hjoins] using hK
      simp [condition?, hjoins, List.getElem?_append_left, hlt]
  | filter hL =>
    rcases hL with rfl | hL
    · cases K <;> simp [condition?] at hK ⊢
    · rw [hholds] at hL
      cases hL

end Query

/-! ## One step -/

namespace Step

variable {x : Step} {xs : List Step} {q r : Query} {K : Clause} {i : Nat}

theorem command_eq (h : x.apply q = .ok r) : r.command = q.command := by
  cases hx : x.clause? with
  | none => exact (apply_of_clause?_eq_none hx h).1
  | some K =>
    obtain ⟨link, added, -, hr⟩ := apply_of_clause? hx h
    exact hr.command_eq

theorem length_joins (h : x.apply q = .ok r) :
    r.joins.length = q.joins.length + x.joins.toNat := by
  cases hx : x.clause? with
  | none =>
    obtain ⟨-, -, -, added, hjoins, hadded⟩ := apply_of_clause?_eq_none hx h
    rw [← hadded, ← List.length_map (f := Join.condition), hjoins, List.length_append,
      List.length_map]
  | some K =>
    obtain ⟨link, added, -, hr⟩ := apply_of_clause? hx h
    have hjoins : x.joins = false :=
      Bool.eq_false_of_not_eq_true fun h => by rw [clause?_eq_none_of_joins h] at hx; cases hx
    rw [hr.joins_length, hjoins]
    rfl

/-- A step leaves the condition of a clause that it does not add to. -/
theorem condition?_eq (hq : q.Sorts) (h : x.apply q = .ok r)
    (hi : K = .pairing → i < q.joins.length)
    (hx : x.clause? ≠ some K ∨ K = .pairing ∧ i + 1 < q.joins.length) :
    r.condition? i K = q.condition? i K := by
  cases hclause : x.clause? with
  | none =>
    obtain ⟨-, hfilter, hhaving, added, hjoins, -⟩ := apply_of_clause?_eq_none hclause h
    cases K with
    | filter => exact hfilter
    | having => exact hhaving
    | pairing =>
      rw [Query.condition?, hjoins, List.getElem?_append_left (by simpa using hi rfl)]
      rfl
  | some L =>
    obtain ⟨link, added, hadmits, hr⟩ := apply_of_clause? hclause h
    refine hr.condition?_of_ne (hq.holds hadmits) (hx.imp_left ?_)
    rintro hne rfl
    exact hne hclause

theorem command_eq_of_applyAll (h : applyAll xs q = .ok r) : r.command = q.command := by
  induction xs generalizing q with
  | nil =>
    cases h
    rfl
  | cons x xs ih =>
    obtain ⟨p, hp, h⟩ := applyAll_cons_eq_ok h
    rw [ih h, command_eq hp]

/-- Once another join has been added, the condition of a join stays. -/
theorem condition?_pairing_of_applyAll (hq : q.Sorts) (hi : i + 1 < q.joins.length)
    (h : applyAll xs q = .ok r) : r.condition? i .pairing = q.condition? i .pairing := by
  induction xs generalizing q with
  | nil =>
    cases h
    rfl
  | cons x xs ih =>
    obtain ⟨p, hp, h⟩ := applyAll_cons_eq_ok h
    have hlength : i + 1 < p.joins.length := by
      rw [length_joins hp]
      exact Nat.lt_add_right _ hi
    have hp' : p.Sorts := fun K => command_eq hp ▸ hq K
    rw [ih hp' hlength h]
    exact condition?_eq hq hp (fun _ => Nat.lt_of_succ_lt hi) (.inr ⟨rfl, hi⟩)

end Step

/-! ## Calls of a chain -/

mutual

/-- The call of a part adds the condition of the part. -/
theorem Part.restricts {t : Table} {K : Clause} {link : Link} : ∀ {p : Part} {q r : Query},
    (p.step t K link).apply q = .ok r →
      q.command.admits (.condition K link) = true ∧ ∃ added, p.Stands t added ∧
        q.Restricts K link.joiner added r
  | .sentence S, _, _, h => by
    rw [Part.step, Step.apply] at h
    obtain ⟨o, ho, h⟩ := bind_eq_ok_iff.mp h
    obtain ⟨e, rfl, he⟩ := Formula.stands_of_eval ho
    obtain ⟨hadmits, added, hadded, hr⟩ := Query.restrict_eq_ok h
    obtain ⟨e', he', -, rfl⟩ := Criterion.condition_operand_eq_ok hadded
    cases he'
    exact ⟨hadmits, _, ⟨e, he, rfl⟩, hr⟩
  | .draft C, _, _, h => by
    rw [Part.step, Step.apply] at h
    obtain ⟨hadmits, added, hadded, hr⟩ := Query.restrict_eq_ok h
    obtain ⟨result, inside, hresult, -, hinside, rfl⟩ := Criterion.condition_draft_eq_ok hadded
    rw [Draft.run] at hresult
    obtain ⟨-, d, hd, hC⟩ := Chain.stands_of_scope (C := C) rfl rfl hresult
    cases hinside.symm.trans hd
    exact ⟨hadmits, _, ⟨_, hC, rfl⟩, hr⟩

/-- The calls of a chain in a scope of their own. -/
theorem Chain.stands_of_scope {t : Table} {clause : Bool → Clause} {K : Clause} :
    ∀ {C : Chain} {q r : Query}, q.command = .scope (.condition K) → q.filter = none →
      Step.applyAll (C.steps t clause) q = .ok r →
        r.command = q.command ∧ ∃ d, r.filter = some d ∧ C.Stands t d
  | .first m p, q, _, hc, hf, h => by
    rw [Chain.steps] at h
    obtain ⟨-, added, hadded, hr⟩ := Part.restricts (p := p) (Step.applyAll_singleton_eq_ok h)
    refine ⟨hr.command_eq, added, ?_, hadded⟩
    rw [hr.filter_eq hc, hf]
    rfl
  | .more C m p, q, _, hc, hf, h => by
    rw [Chain.steps] at h
    obtain ⟨q', hq', h⟩ := Step.applyAll_append_eq_ok h
    obtain ⟨hc', existing, hexisting, hC⟩ := Chain.stands_of_scope hc hf hq'
    obtain ⟨-, added, hadded, hr⟩ := Part.restricts (p := p) (Step.applyAll_singleton_eq_ok h)
    refine ⟨hr.command_eq.trans hc', _, hr.filter_eq (hc'.trans hc), existing, added,
      hC, hadded, ?_⟩
    rw [hexisting]

end

/-- The condition is what the calls make, if they are those of a chain. -/
structure Chain.Backed (t : Table) (K : Clause) (calls : List Step)
    (kept : Option Cond) : Prop where
  empty : calls = [] → kept = none
  stands (C : Chain) : C.steps t (fun _ => K) = calls → ∃ d, kept = some d ∧ C.Stands t d

namespace Chain

variable {t : Table} {K : Clause} {calls xs : List Step} {q r : Query} {i : Nat}

theorem steps_ne_nil (t : Table) (clause : Bool → Clause) (C : Chain) : C.steps t clause ≠ [] := by
  cases C with
  | first m p => exact List.cons_ne_nil _ _
  | more C m p => exact List.append_ne_nil_of_right_ne_nil _ (List.cons_ne_nil _ _)

theorem backed_nil (t : Table) (K : Clause) : Backed t K [] none where
  empty := fun _ => rfl
  stands := fun C h => absurd h (C.steps_ne_nil t _)

/-- One more call joins its condition to what the calls before it made. -/
theorem Backed.call {x : Step} (h : Backed t K calls (q.condition? i K)) (hq : q.Sorts)
    (hi : K = .pairing → q.joins.length = i + 1) (hx : x.apply q = .ok r) :
    Backed t K (calls ++ [x]) (r.condition? i K) := by
  refine ⟨fun hnil => absurd hnil (by simp), fun C hC => ?_⟩
  cases C with
  | first m p =>
    rw [steps, ← List.nil_append [_]] at hC
    obtain ⟨hcalls, hstep⟩ := List.append_inj' hC rfl
    obtain rfl := List.singleton_inj.mp hstep
    obtain ⟨hadmits, added, hadded, hr⟩ := p.restricts hx
    refine ⟨added, ?_, hadded⟩
    rw [hr.condition?_eq (hq.holds hadmits) hi, h.empty hcalls.symm]
    rfl
  | more C m p =>
    rw [steps] at hC
    obtain ⟨hcalls, hstep⟩ := List.append_inj' hC rfl
    obtain rfl := List.singleton_inj.mp hstep
    obtain ⟨hadmits, added, hadded, hr⟩ := p.restricts hx
    obtain ⟨existing, hexisting, hC⟩ := h.stands C hcalls
    refine ⟨_, ?_, existing, added, hC, hadded, rfl⟩
    rw [hr.condition?_eq (hq.holds hadmits) hi, hexisting]

/-- Calls join their conditions to what there is, whatever other steps stand between them. -/
theorem Backed.applyAll (h : Backed t K calls (q.condition? i K)) (hq : q.Sorts)
    (hi : K = .pairing → q.joins.length = i + 1) (hr : Step.applyAll xs q = .ok r) :
    Backed t K (calls ++ Step.calls K xs) (r.condition? i K) := by
  induction xs generalizing q calls with
  | nil =>
    cases hr
    rwa [Step.calls, List.takeWhile_nil, List.filter_nil, List.append_nil]
  | cons x xs ih =>
    obtain ⟨p, hp, hr⟩ := Step.applyAll_cons_eq_ok hr
    have hp' : p.Sorts := fun L => Step.command_eq hp ▸ hq L
    have hlength := Step.length_joins hp
    by_cases hjoins : K = .pairing ∧ x.joins = true
    · -- The condition of the join before this one is not added to any more.
      obtain ⟨rfl, hx⟩ := hjoins
      have hclause : x.clause? ≠ some .pairing := by
        rw [Step.clause?_eq_none_of_joins hx]
        exact nofun
      rw [hi rfl, hx] at hlength
      rw [Step.calls_cons_of_joins hx, List.append_nil,
        Step.condition?_pairing_of_applyAll hp' (hlength ▸ Nat.lt_succ_self _) hr,
        Step.condition?_eq hq hp (fun _ => (hi rfl).symm ▸ Nat.lt_succ_self i) (.inl hclause)]
      exact h
    · have hi' (hK : K = .pairing) : p.joins.length = i + 1 := by
        have hx : x.joins = false := Bool.eq_false_of_not_eq_true fun hx => hjoins ⟨hK, hx⟩
        rw [hlength, hx, hi hK]
        rfl
      rw [Step.calls_cons hjoins, ← List.append_assoc]
      refine ih ?_ hp' hi' hr
      split
      · exact h.call hq hi hp
      · next hx =>
        rw [List.append_nil, Step.condition?_eq hq hp
          (fun hK => (hi hK).symm ▸ Nat.lt_succ_self i) (.inl hx)]
        exact h

end Chain

end SqlDraft
