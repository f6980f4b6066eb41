import SqlDraft.Proofs.Condition.Drafting
import SqlDraft.Proofs.Formula.Alike
import SqlDraft.Proofs.Layout.Inclusion
import SqlDraft.Sql.Compile

/-! What the condition of a statement says. Its text is read as the calls that made it, one joined
to all those before it, unless an operator that binds as loosely as `or` stands in one of them
behind `or` (`Chain.read_compile`). -/

namespace SqlDraft

open Reading Sql

variable {t : Table} {C : Chain} {K : Clause} {i : Nat} {xs : List Step} {q r : Query}

/-! ## Chains in statements -/

/-- The calls among the steps that add to a condition are those of the chain. There is no condition
before, or else the draft of the join makes what there is. -/
inductive Chain.Called (t : Table) (C : Chain) (q : Query) : Clause → Nat → List Step → Prop
  | calls {K : Clause} {i : Nat} {xs : List Step} (hnone : q.condition? i K = none)
      (hi : K = .pairing → q.joins.length = i + 1)
      (hxs : Step.calls K xs = C.steps t fun _ => K) : Called t C q K i xs
  | join {kind : JoinKind} {u : Table} {inside xs : List Step}
      (hxs : Step.calls .pairing inside ++ Step.calls .pairing xs = C.steps t fun _ => .pairing) :
      Called t C q .pairing q.joins.length (.joinDraft kind u (.steps inside) :: xs)

theorem Step.mem_of_mem_calls {x : Step} (h : x ∈ calls K xs) : x ∈ xs ∧ x.clause? = some K := by
  rw [calls, List.mem_filter] at h
  exact ⟨(List.takeWhile_sublist _).mem h.1, by simpa using h.2⟩

theorem Step.exists_apply_of_mem {x : Step} (hx : x ∈ xs) (h : applyAll xs q = .ok r) :
    ∃ p p', x.apply p = .ok p' ∧ p.command = q.command := by
  induction xs generalizing q with
  | nil => cases hx
  | cons y xs ih =>
    obtain ⟨p, hp, h⟩ := applyAll_cons_eq_ok h
    rcases List.mem_cons.mp hx with rfl | hx
    · exact ⟨q, p, hp, rfl⟩
    · obtain ⟨p', p'', hp', hcommand⟩ := ih hx h
      exact ⟨p', p'', hp', hcommand.trans (command_eq hp)⟩

theorem Query.sorts_of_statement {c : Statement} (hq : q.command = .statement c) : q.Sorts :=
  fun K h => by rw [hq] at h; cases h

/-- A statement for which a chain is called has the clause. -/
theorem Chain.Called.admits {c : Statement} (hq : q.command = .statement c)
    (hC : C.Called t q K i xs) (hr : Step.applyAll xs q = .ok r) :
    ∃ link, (Command.statement c).admits (.condition K link) = true := by
  cases hC with
  | calls _ _ hxs =>
    obtain ⟨x, hx⟩ := List.exists_mem_of_ne_nil _ (hxs ▸ C.steps_ne_nil t fun _ => K)
    obtain ⟨hmem, hclause⟩ := Step.mem_of_mem_calls hx
    obtain ⟨p, p', hp, hcommand⟩ := Step.exists_apply_of_mem hmem hr
    obtain ⟨link, added, hadmits, -⟩ := Step.apply_of_clause? hclause hp
    exact ⟨link, by rwa [hcommand, hq] at hadmits⟩
  | join _ =>
    obtain ⟨p, hp, -⟩ := Step.applyAll_cons_eq_ok hr
    obtain ⟨hadmits, -⟩ := Query.join_some_eq_ok hp
    rw [hq] at hadmits
    cases c <;> first | exact ⟨.plain, rfl⟩ | cases hadmits

/-- The statement holds the condition of the chain. -/
theorem Chain.Called.stands (hq : q.Sorts) (hC : C.Called t q K i xs)
    (hr : Step.applyAll xs q = .ok r) : ∃ d, r.condition? i K = some d ∧ C.Stands t d := by
  cases hC with
  | calls hnone hi hxs =>
    have hbacked : Backed t K [] (q.condition? i K) := hnone ▸ backed_nil t K
    exact (hbacked.applyAll hq hi hr).stands C hxs.symm
  | @join kind u inside xs hxs =>
    obtain ⟨p, hp, hr⟩ := Step.applyAll_cons_eq_ok hr
    obtain ⟨-, result, j, rest, hresult, -, hjoins, rfl⟩ := Query.join_some_eq_ok hp
    -- The draft of the join starts without a condition.
    have hinside := (backed_nil t .pairing).applyAll (i := 0) (q := .joining { kind, table := u })
      (fun K h => nomatch h) (fun _ => rfl) hresult
    have hkept : result.condition? 0 .pairing =
        ({ q with joins := q.joins ++ [j] } : Query).condition? q.joins.length .pairing := by
      simp [Query.condition?, hjoins]
    rw [hkept] at hinside
    exact (hinside.applyAll hq (fun _ => by simp) hr).stands C hxs.symm

/-- The text of a statement has the condition of a clause in it, behind the word for the clause. -/
theorem Query.write_condition {c : Statement} {link : Link} {d : Cond} {D : Dialect}
    {outer : List Table} {ts : Tokens} (hq : q.command = .statement c)
    (hadmits : (Command.statement c).admits (.condition K link) = true)
    (hd : q.condition? i K = some d) (h : q.write D outer = .ok ts) :
    ∃ ys, d.write (q.site D outer) none = .ok ys ∧
      (q.site D outer).introduced (.clause K) ys <:+: ts := by
  rw [write_eq] at h
  obtain ⟨hfilter, hhaving⟩ := Site.statement_clause hq h
  cases K with
  | filter =>
    refine hfilter ?_ (d.write _ none) ?_
    · cases c <;> first | decide | cases hadmits
    · rw [parts, Cond.write?_eq_map, show q.filter = some d from hd]
      rfl
  | having =>
    refine hhaving ?_ (d.write _ none) ?_
    · cases c <;> first | rfl | cases hadmits
    · rw [parts, Cond.write?_eq_map, show q.having = some d from hd]
      rfl
  | pairing =>
    obtain rfl : c = .select := by cases c <;> first | rfl | cases hadmits
    obtain ⟨j, hj, hcondition⟩ := List.mem_map.mp
      (List.mem_of_getElem? (Option.join_eq_some_iff.mp hd))
    have hmem : j.write (q.site D outer) ∈ (q.parts (q.site D outer)).joins := by
      rw [parts, Join.writeEach_eq_map]
      exact List.mem_map_of_mem hj
    obtain ⟨u, -, hlaid⟩ := Site.LaidOut.of_statement hq h
    obtain ⟨us, hus, hinfix⟩ := (Site.select_includes hlaid).2.1 _ hmem
    obtain ⟨ys, hys, hintroduced⟩ := Join.write_condition hcondition hus
    exact ⟨ys, hys, hintroduced.trans hinfix⟩

/-! ## What is read -/

/-- Any values of the columns are those of their texts. -/
theorem Sentence.exists_values_eq {f : Flavor} {c : LetterCase} {s : Site}
    (hs : s.dialect = f.dialect)
    (t : Table) (a : String → Bool) : ∃ v, Sentence.values c s t v = a := by
  have hinjective : Function.Injective fun n => chars c (s.spelled t n) :=
    fun _ _ h => Formula.spelled_injective hs h
  exact ⟨Function.extend (fun n => chars c (s.spelled t n)) a fun _ => false,
    funext fun n => hinjective.extend_apply a _ n⟩

/-- The condition of a clause that the calls of a chain make is read, by the precedences of the
dialect, as what `Chain.said` works out for all values of the columns. That is what the calls say,
each joined to those before it, just when the chain is safe: for any other there are columns with
which the text says something else. -/
theorem Chain.read_compile {c : Statement} (hq : q.command = .statement c)
    (hC : C.Called t q K i xs) (hr : Step.applyAll xs q = .ok r) {f : Flavor} {finish : Finish}
    {text : String} (htext : r.compile f.dialect finish = .ok text) :
    let s := r.site f.dialect []
    (∃ d ys φ, r.condition? i K = some d ∧ d.write s none = .ok ys ∧
      chars finish.letterCase (s.introduced (.clause K) ys) <:+: text.toList ∧
      (f.grammar finish.letterCase).read f.lexis (chars finish.letterCase ys) = some φ ∧
      ∀ a : String → Bool, ∃ v, Sentence.values finish.letterCase s t v = a ∧
        φ.value? f finish.letterCase v = some (C.said f a)) ∧
    ((∀ D : Chain, D.shape = C.shape → ∀ a, D.said f a = D.value a) ↔ C.safe f = true) := by
  intro s
  obtain ⟨ts, hts, rfl⟩ := Query.compile_eq_ok_iff.mp htext
  obtain ⟨link, hadmits⟩ := hC.admits hq hr
  obtain ⟨d, hd, hstands⟩ := hC.stands (Query.sorts_of_statement hq) hr
  have hcommand : r.command = .statement c := (Step.command_eq_of_applyAll hr).trans hq
  obtain ⟨ys, hys, hinfix⟩ := Query.write_condition hcommand hadmits hd hts
  refine ⟨⟨d, ys, _, hd, hys, ?_, hstands.read rfl hys, fun a => ?_⟩, fun h => ?_,
    fun h D hD a => ?_⟩
  · rw [String.toList_append]
    exact (infix_chars hinfix).trans (List.prefix_append _ _).isInfix
  · obtain ⟨v, hv⟩ := Sentence.exists_values_eq (c := finish.letterCase) (s := s) rfl t a
    exact ⟨v, hv, hv ▸ Chain.value?_phrase (hstands.tells (c := finish.letterCase) rfl hys).1⟩
  · by_contra hsafe
    obtain ⟨D, hD, hne⟩ := Chain.exists_said_ne (Bool.eq_false_of_not_eq_true hsafe)
    exact hne (h D hD _)
  · exact Chain.said_eq_value (by rw [← D.safe_shape, hD, C.safe_shape, h])

/-- Calls for the condition of rows, with another call between them. -/
theorem Chain.read_compile_grouped :
    let t : Table := { serial := 0, name := "t" }
    let q : Query := { command := .statement .select, table := some t }
    let inner : Chain := .more (.first ⟨true, .plain⟩ (.sentence (.column "b"))) ⟨true, .either⟩
      (.sentence (.connect .or (.column "c") (.column "d")))
    let C : Chain := .more (.first ⟨true, .plain⟩ (.sentence (.not (.column "a")))) ⟨true, .both⟩
      (.draft inner)
    let steps : List Step := [(Part.sentence (.not (.column "a"))).step t .filter .plain, .distinct,
      (Part.draft inner).step t .filter .both]
    ∃ r text, Step.applyAll steps q = .ok r ∧ r.compile Flavor.mysql.dialect {} = .ok text ∧
      text = "select distinct * from t where not a and (b or c or d);" ∧
      (∃ d ys φ, r.condition? 0 .filter = some d ∧
        d.write (r.site Flavor.mysql.dialect []) none = .ok ys ∧
        chars .lower ((r.site Flavor.mysql.dialect []).introduced
          (.clause .filter) ys) <:+: text.toList ∧
        (Flavor.mysql.grammar .lower).read Flavor.mysql.lexis (chars .lower ys) = some φ ∧
        ∀ a : String → Bool, ∃ v,
          Sentence.values .lower (r.site Flavor.mysql.dialect []) t v = a ∧
            φ.value? .mysql .lower v = some (C.said .mysql a)) ∧
      ((∀ D : Chain, D.shape = C.shape → ∀ a, D.said .mysql a = D.value a) ↔
        C.safe .mysql = true) := by
  intro t q inner C steps
  have h : (Step.applyAll steps q >>= fun r => r.compile Flavor.mysql.dialect {}) =
      .ok "select distinct * from t where not a and (b or c or d);" := by decide +kernel
  obtain ⟨r, hr, htext⟩ := bind_eq_ok_iff.mp h
  have hC : C.Called t q .filter 0 steps := .calls rfl (by rintro ⟨⟩) rfl
  have hread := Chain.read_compile (f := .mysql) rfl hC hr htext
  exact ⟨r, _, hr, htext, rfl, hread⟩

/-- The text of a sentence behind `or` is not enclosed, and is read as something else than was
called for. -/
theorem Chain.read_compile_ne_value :
    let t : Table := { serial := 0, name := "t" }
    let q : Query := { command := .statement .select, table := some t }
    let C : Chain := .more (.first ⟨true, .plain⟩ (.sentence (.column "a"))) ⟨true, .either⟩
      (.sentence (.connect .xor (.column "b") (.column "c")))
    let a : String → Bool := fun n => n = "a" || n = "c"
    let v : Word → Bool := fun w => a (String.ofList w)
    (Step.applyAll (C.steps t fun _ => .filter) q >>= fun r => r.compile .generic) =
        .ok "select * from t where a or b xor c;" ∧
      (∃ φ, (Flavor.generic.grammar .lower).read Flavor.generic.lexis
        "a or b xor c".toList = some φ ∧
        φ.value? .generic .lower v = some false) ∧
      C.value a = true :=
  have hread : (Flavor.generic.grammar .lower).read Flavor.generic.lexis "a or b xor c".toList =
      some (.binary (.binary (.atom ['a']) ['o', 'r'] (.atom ['b'])) ['x', 'o', 'r']
        (.atom ['c'])) := rfl
  ⟨by decide +kernel, ⟨_, hread, by decide +kernel⟩, by decide⟩

end SqlDraft
