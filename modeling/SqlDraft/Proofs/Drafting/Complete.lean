import SqlDraft.Proofs.Drafting.Written
import SqlDraft.Proofs.Layout.Faults
import SqlDraft.Proofs.Layout.Tree
import SqlDraft.Sql.Compile

/-! Which queries can be written. A query that is made has a text just when nothing is lacking in it
(`Query.Complete`), nor in any query within it, and the dialect can write each call and each value
(`Query.Made.compile_iff`). A fault comes from one place in the query, where what it says is wrong
(`Expr.exists_fails`). -/

namespace SqlDraft

open Sql

/-- The statement has all that its command asks for. -/
structure Query.Complete (q : Query) : Prop where
  table : q.table ≠ none
  joins : ∀ j ∈ q.joins, j.kind ≠ .cross → j.condition ≠ none ∨ j.shared.getD [] ≠ []
  rows : q.command = .statement .insert → q.rows ≠ []
  assignments : q.command = .statement .update → q.assignments ≠ []
  columns : q.command = .statement .create → ∀ t ∈ q.table, t.declaredColumns ≠ []
  kinds : q.command = .statement .create → ∀ t ∈ q.table, ∀ c ∈ t.declaredColumns,
    ∃ k, c.data = .concrete k

/-- A number that is finite, a date that there is, or any other value. -/
def Value.Printable : Value → Prop
  | .number x => Decimal.isFinite x = true
  | .date instant => instant ≠ none
  | _ => True

/-- The dialect can write the expression, but for what stands in it. -/
def Expr.Writable (f : Flavor) : Expr → Prop
  | .call head _ => ∃ r, f.dialect.rule? head.function = some r
  | .literal v _ => v.Printable
  | .list vs _ => ∀ v ∈ vs, v.Printable
  | .subquery q => q.Complete
  | _ => True

/-- What is wrong only with a query that no method makes. -/
def WritingIssue.misshapen : WritingIssue → Bool
  | conditionOnCrossJoin _ | emptyList | missingArgument .. | scopeAlone _ => true
  | _ => false

/-- Why an expression cannot be written, though all that stands in it could be. -/
inductive Expr.Fails (s : Site) : Expr → Fault → Prop
  | column {c : Column} (h : ¬ s.Sees c.table) :
      Fails s (.column c) (s.fault (.outOfScope c.table.qualifiedName c.name))
  | star {t : Table} (h : ¬ s.Sees t) :
      Fails s (.star t) (s.fault (.outOfScope t.qualifiedName "*"))
  | literal {v : Value} {t : Ty} {φ : Fault} (h : s.literal t v = .error φ) :
      Fails s (.literal v t) φ
  | list {vs : List Value} {t : Ty} {v : Value} {φ : Fault} (hv : v ∈ vs)
      (h : s.literal t v = .error φ) : Fails s (.list vs t) φ
  | call {head : CallHead} {args : List Expr} (h : s.dialect.rule? head.function = none) :
      Fails s (.call head args) (.noRule s.dialect.name head.function)
  | subquery {q : Query} {φ : Fault} (h : q.Lacks (q.site s.dialect (s.own ++ s.outer)) φ) :
      Fails s (.subquery q) φ

/-! ## What the faults say -/

variable {f : Flavor} {s : Site} {φ : Fault}

theorem Query.Lacks.not_complete {q : Query} (h : q.Lacks s φ) : ¬ q.Complete := by
  intro hq
  cases h with
  | table h => exact hq.table h
  | pairing hj hkind hcondition hshared =>
    rcases hq.joins _ hj hkind with h | h
    · exact h hcondition
    · exact h (by rw [hshared]; rfl)
  | rows hc hrows => exact hq.rows hc hrows
  | assignments hc h => exact hq.assignments hc h
  | columns hc ht h => exact hq.columns hc _ ht h
  | kind hc ht hmem hkind =>
    obtain ⟨k, hk⟩ := hq.kinds hc _ ht _ hmem
    exact hkind k hk

theorem Sql.Site.literal_ok_iff {t : Ty} {v : Value} : (∃ ts, s.literal t v = .ok ts) ↔
    v.Printable := by
  cases v with
  | null => exact ⟨fun _ => trivial, fun _ => ⟨_, rfl⟩⟩
  | truth b => exact ⟨fun _ => trivial, fun _ => ⟨_, rfl⟩⟩
  | number x =>
    unfold Site.literal Value.Printable
    dsimp only
    split
    · next h => exact ⟨fun _ => h, fun _ => ⟨_, rfl⟩⟩
    · next h => exact ⟨nofun, fun hx => absurd hx h⟩
  | text v =>
    refine ⟨fun _ => trivial, fun _ => ?_⟩
    unfold Site.literal
    dsimp only
    split <;> exact ⟨_, rfl⟩
  | date instant =>
    cases instant with
    | none => exact ⟨nofun, fun h => absurd rfl h⟩
    | some i => exact ⟨fun _ => nofun, fun _ => ⟨_, rfl⟩⟩

theorem Sql.Site.not_misshapen_of_literal {t : Ty} {v : Value} {d : String} {issue : WritingIssue}
    (h : s.literal t v = .error (.writing d issue)) : issue.misshapen = false := by
  unfold Site.literal at h
  split at h
  · cases h
  · cases h
  · split at h <;> cases h
    rfl
  · split at h <;> cases h
  · cases h
  · cases h

theorem Query.Lacks.not_misshapen {q : Query} {d : String} {issue : WritingIssue}
    (h : q.Lacks s (.writing d issue)) : issue.misshapen = false := by
  generalize hφ : Fault.writing d issue = φ at h
  cases h <;> cases hφ <;> rfl

theorem Expr.Fails.not_misshapen {x : Expr} {d : String} {issue : WritingIssue}
    (h : x.Fails s (.writing d issue)) : issue.misshapen = false := by
  generalize hφ : Fault.writing d issue = φ at h
  cases h with
  | literal h => exact Site.not_misshapen_of_literal (hφ ▸ h)
  | list _ h => exact Site.not_misshapen_of_literal (hφ ▸ h)
  | subquery h => exact Query.Lacks.not_misshapen (hφ ▸ h)
  | _ => cases hφ <;> rfl

theorem Expr.Fails.not_writable {x : Expr} (h : x.Fails s φ) (hs : s.dialect = f.dialect)
    (hsees : ∀ t, x.table? = some t → s.Sees t) : ¬ x.Writable f := by
  intro hx
  have printed {t : Ty} {v : Value} (h : s.literal t v = .error φ) (hv : v.Printable) : False := by
    obtain ⟨ts, hts⟩ := Site.literal_ok_iff.mpr hv
    cases h.symm.trans hts
  cases h with
  | column h => exact h (hsees _ rfl)
  | star h => exact h (hsees _ rfl)
  | literal h => exact printed h hx
  | list hv h => exact printed h (hx _ hv)
  | call h =>
    obtain ⟨r, hr⟩ := hx
    rw [hs, hr] at h
    cases h
  | subquery h => exact h.not_complete hx

/-! ## Where faults come from -/

theorem Flavor.mem_commands (f : Flavor) (c : Statement) : c ∈ f.dialect.commands := by
  cases f <;> exact Statement.mem_all c

/-- A sound statement is refused for what it lacks, or for an expression in one of its clauses. -/
theorem Query.Sound.exists_error {q : Query} (hq : q.Sound) {c : Statement}
    (hc : q.command = .statement c) {outer : List Table} (h : q.write f.dialect outer = .error φ) :
    q.Lacks (q.site f.dialect outer) φ ∨
      ∃ e ∈ q.exprs, e.write (q.site f.dialect outer) = .error φ := by
  rw [write_eq] at h
  rcases Site.statement_fault hc hq (f.mem_commands c) h with hmem | hlacks
  · exact hq.part_error hmem
  · exact .inl hlacks

/-- A call of as many arguments as its rule asks for is refused for one of these, or for having no
rule. -/
theorem Expr.Sound.call_error {head : CallHead} {args : List Expr}
    (h : (Expr.call head args).Sound fun _ => False)
    (hs : s.dialect = f.dialect) (herror : (Expr.call head args).write s = .error φ) :
    (Expr.call head args).Fails s φ ∨ ∃ a ∈ args, a.write s = .error φ := by
  rw [Expr.write, Expr.arguments_eq_map, Site.call] at herror
  split at herror
  · next r hr =>
    have htakes : r.takes (args.map fun e => (⟨e, e.write s⟩ : Argument)).length = true := by
      rw [List.length_map]
      exact h.takes (hs ▸ hr)
    obtain ⟨a, ha, haerror⟩ := Site.apply_error htakes herror
    obtain ⟨e, he, rfl⟩ := List.mem_map.mp ha
    exact .inr ⟨e, he, haerror⟩
  · next hr =>
    cases herror
    exact .inl (.call hr)

/-- A fault comes from an expression that cannot be written where it stands. -/
theorem Expr.exists_fails (e : Expr) : (e.AllSound fun _ => False) →
    ∀ {s : Site}, s.dialect = f.dialect →
    e.write s = .error φ → ∃ s' x, e.Contains s s' x ∧ x.Fails s' φ := by
  induction e using Expr.induction with
  | column c =>
    intro _ s _ h
    rw [Expr.write] at h
    unfold Site.column Site.reference at h
    split at h
    · cases h
    · next hsees =>
      cases h
      exact ⟨s, _, .self s _, .column hsees⟩
  | star t =>
    intro _ s _ h
    rw [Expr.write] at h
    unfold Site.star Site.reference at h
    split at h
    · cases h
    · next hsees =>
      cases h
      exact ⟨s, _, .self s _, .star hsees⟩
  | literal v t =>
    intro _ s _ h
    rw [Expr.write] at h
    exact ⟨s, _, .self s _, .literal h⟩
  | list vs t =>
    intro hsound s _ h
    have hne : vs ≠ [] := hsound.self
    rw [Expr.write, if_neg (by simpa using hne)] at h
    obtain ⟨v, hv, h⟩ := List.mem_map.mp (mem_of_gather_eq_error (map_eq_error_iff.mp h))
    exact ⟨s, _, .self s _, .list hv h⟩
  | call head args ih =>
    intro hsound s hs h
    obtain ⟨hcall, hargs⟩ := everywhere_call_iff.mp hsound
    rcases hcall.call_error hs h with h | ⟨a, ha, h⟩
    · exact ⟨s, _, .self s _, h⟩
    · obtain ⟨s', x, hx, h⟩ := ih a ha (hargs a ha) hs h
      exact ⟨s', x, .argument ha hx, h⟩
  | subquery q ih =>
    intro hsound s hs h
    obtain ⟨⟨hq, c, hc⟩, hparts⟩ := everywhere_subquery_iff.mp hsound
    rw [Expr.write, map_eq_error_iff, hs] at h
    rcases hq.exists_error hc h with h | ⟨e, he, h⟩
    · exact ⟨s, _, .self s _, .subquery (hs ▸ h)⟩
    · obtain ⟨s', x, hx, h⟩ := ih e he (hparts e he) rfl h
      exact ⟨s', x, .subquery he (hs ▸ hx), h⟩

/-! ## What is written is complete -/

theorem Join.joined_of_write {j : Join} {ts : Tokens} (h : j.write s = .ok ts)
    (hkind : j.kind ≠ .cross) : j.condition ≠ none ∨ j.shared.getD [] ≠ [] := by
  rw [Join.write_eq] at h
  have hj := Site.join_eq_ok h
  generalize hcondition : Cond.write? s j.condition = o at hj
  cases hj with
  | cross hcross => exact absurd hcross hkind
  | condition =>
    refine .inl fun hnone => ?_
    rw [hnone] at hcondition
    cases hcondition
  | shared _ hshared =>
    rw [hshared]
    exact .inr (List.cons_ne_nil _ _)

theorem Sql.Site.concrete_of_definition {c : Column} {ts : Tokens} (h : s.definition c = .ok ts) :
    ∃ k, c.data = .concrete k := by
  unfold definition at h
  split at h
  · next k hk => exact ⟨k, hk⟩
  · cases h

/-- What is written lacks nothing. -/
theorem Query.Sound.complete_of_write {q : Query} (hq : q.Sound) {d : Dialect} {outer : List Table}
    {ts : Tokens} (h : q.write d outer = .ok ts) : q.Complete := by
  rw [write_eq] at h
  obtain ⟨c, t, hc, -, htable, h⟩ := Site.statement_eq_ok h
  have only {k : Statement} (hk : q.command = .statement k) : c = k :=
    Command.statement.inj (hc.symm.trans hk)
  refine ⟨?_, fun j hj => ?_, fun hk => ?_, fun hk => ?_, fun hk t' ht => ?_,
    fun hk t' ht k hmem => ?_⟩
  · rw [htable]
    exact nofun
  · have hadmits := hq.joins (List.ne_nil_of_mem hj)
    obtain rfl : c = .select := statement_eq_of_admits hc hadmits (by decide)
    have hmem : j.write (q.site d outer) ∈ (q.parts (q.site d outer)).joins := by
      rw [parts, Join.writeEach_eq_map]
      exact List.mem_map_of_mem hj
    obtain ⟨xs, hxs, -⟩ := (Site.select_includes h).2.1 _ hmem
    exact Join.joined_of_write hxs
  · obtain rfl := only hk
    cases h with
    | insert _ hne => exact hne
  · obtain rfl := only hk
    cases h with
    | update hne => exact hne
  · obtain rfl := only hk
    cases htable.symm.trans ht
    cases h with
    | create hne => exact hne
  · obtain rfl := only hk
    cases htable.symm.trans ht
    cases h with
    | create _ hdefinitions =>
      obtain ⟨xs, -, hxs⟩ := exists_of_mem_gather hdefinitions (List.mem_map_of_mem hmem)
      exact Site.concrete_of_definition hxs

theorem Expr.writable_of_write {G : Signature → Prop} {x : Expr} (hx : x.Sound G)
    (hs : s.dialect = f.dialect) {ts : Tokens} (h : x.write s = .ok ts) : x.Writable f := by
  cases x with
  | column c => trivial
  | star t => trivial
  | literal v t =>
    rw [Expr.write] at h
    exact Site.literal_ok_iff.mp ⟨ts, h⟩
  | list vs t =>
    have hne : vs ≠ [] := hx
    rw [Expr.write, if_neg (by simpa using hne)] at h
    obtain ⟨tss, htss, -⟩ := map_eq_ok_iff.mp h
    intro v hv
    obtain ⟨xs, -, hxs⟩ := exists_of_mem_gather htss (List.mem_map_of_mem hv)
    exact Site.literal_ok_iff.mp ⟨xs, hxs⟩
  | call head args =>
    rw [Expr.write, Site.call] at h
    split at h
    · next r hr => exact ⟨r, hs ▸ hr⟩
    · cases h
  | subquery q =>
    rw [Expr.write] at h
    obtain ⟨xs, hxs, -⟩ := map_eq_ok_iff.mp h
    exact hx.1.complete_of_write hxs

theorem Query.compile_eq_error_iff {q : Query} {d : Dialect} {finish : Finish} :
    q.compile d finish = .error φ ↔ q.write d [] = .error φ := by
  rw [← map_eq_error_iff (f := fun ts : Tokens => ts.write finish.letterCase ++ finish.tail)]
  unfold compile
  cases q.write d [] <;> rfl

/-- A query that is made, and refers to nothing out of sight, has a text just when it is complete,
and so is every query in it, and the dialect can write its calls and values. Whatever it is refused
for, it is never its shape. -/
theorem Query.Made.compile_iff {q : Query} (hq : q.Made) {c : Statement}
    (hc : q.command = .statement c) (f : Flavor) (finish : Finish) :
    ((∀ s x t, q.Contains f.dialect [] s x → x.table? = some t → s.Sees t) →
      ((∃ text, q.compile f.dialect finish = .ok text) ↔
        q.Complete ∧ ∀ s x, q.Contains f.dialect [] s x → x.Writable f)) ∧
    ∀ d issue, q.compile f.dialect finish = .error (.writing d issue) →
      issue.misshapen = false := by
  have hsound := hq.allSound
  have origin {φ : Fault} (h : q.compile f.dialect finish = .error φ) :
      q.Lacks (q.site f.dialect []) φ ∨ ∃ s x, q.Contains f.dialect [] s x ∧ s.dialect = f.dialect ∧
        x.Fails s φ := by
    rcases hsound.whole.exists_error hc (compile_eq_error_iff.mp h) with h | ⟨e, he, h⟩
    · exact .inl h
    · obtain ⟨s, x, hx, h⟩ := e.exists_fails (hsound.everywhere e he) rfl h
      exact .inr ⟨s, x, ⟨e, he, hx⟩, hx.dialect_eq, h⟩
  refine ⟨fun hsees => ⟨?_, ?_⟩, ?_⟩
  · rintro ⟨text, htext⟩
    obtain ⟨ts, hts, -⟩ := compile_eq_ok_iff.mp htext
    refine ⟨hsound.whole.complete_of_write hts, fun s x hx => ?_⟩
    obtain ⟨hs, hincludes⟩ := hsound.contains_includes hx
    obtain ⟨xs, hxs, -⟩ := hincludes ts hts
    obtain ⟨e, he, hcontains⟩ := hx
    exact Expr.writable_of_write (hsound.everywhere e he _ _ _ hcontains) hs hxs
  · rintro ⟨hcomplete, hwritable⟩
    cases h : q.compile f.dialect finish with
    | ok text => exact ⟨text, rfl⟩
    | error φ =>
      rcases origin h with h | ⟨s, x, hx, hs, h⟩
      · exact absurd hcomplete h.not_complete
      · exact absurd (hwritable s x hx) (h.not_writable hs fun t ht => hsees s x t hx ht)
  · intro d issue h
    rcases origin h with h | ⟨s, x, -, -, h⟩
    · exact h.not_misshapen
    · exact h.not_misshapen

/-- A condition on a column, within the query of another one. -/
theorem Query.Made.compile_iff_within :
    let t : Table := { serial := 0, name := "t" }
    let u : Table := { serial := 1, name := "u" }
    let b : Column := ⟨t, "b", .concrete .boolean⟩
    let inner : Query :=
      { command := .statement .select, table := some u, filter := some (.predicate (.column b)) }
    let q : Query :=
      { command := .statement .select, table := some t,
        filter := some (.predicate (.subquery inner)) }
    (q.Made ∧ q.command = .statement .select ∧
      ∀ s x t, q.Contains .mysql [] s x → x.table? = some t → s.Sees t) ∧
      ((∃ text, q.compile .mysql = .ok text) ↔
        q.Complete ∧ ∀ s x, q.Contains .mysql [] s x → x.Writable .mysql) ∧
      ∀ d issue, q.compile .mysql = .error (.writing d issue) → issue.misshapen = false := by
  intro t u b inner q
  have hinner : inner.Made :=
    Query.MadeOf.restricted .filter .plain (.selectFrom u) (.expr (.column b)) rfl
  have hq : q.Made :=
    Query.MadeOf.restricted .filter .plain (.selectFrom t) (.query (c := .select) hinner rfl) rfl
  have hsees : ∀ s x v, q.Contains .mysql [] s x → x.table? = some v → s.Sees v := by
    rintro s x v ⟨e, he, hx⟩ hv
    obtain rfl : e = .subquery inner := List.mem_singleton.mp he
    cases hx with
    | self => cases hv
    | subquery he hx =>
      obtain rfl := List.mem_singleton.mp he
      cases hx with
      | self =>
        cases hv
        exact .inr List.mem_cons_self
  have h := hq.compile_iff (c := .select) rfl .mysql {}
  exact ⟨⟨hq, rfl, hsees⟩, h.1 hsees, h.2⟩

end SqlDraft
