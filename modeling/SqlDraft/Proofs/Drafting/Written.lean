import SqlDraft.Proofs.Drafting.Made
import SqlDraft.Proofs.Layout.Inclusion

/-! Of what is made nothing is left out. The clauses of a sound query are those that its statement
writes, and so a text has in it all that stands in the query, at whatever depth, as it is written
where it stands (`Query.AllSound.displays_includes`), but for arguments that the rule of a call has
no place for. The rules for the functions at hand from the start ask for each argument
(`Query.AllSound.contains_includes`). -/

namespace SqlDraft

open Sql

/-! ## Calls -/

theorem Flavor.takes_params {f : Flavor} {b : Builtin} {r : Rule} (h : f.rule? b = some r) :
    r.takes b.params.length = true := by
  have hall : Builtin.all.all (fun b => (f.rule? b).all (Rule.takes b.params.length)) = true := by
    cases f <;> decide +kernel
  have hb := List.all_eq_true.mp hall b (Builtin.mem_all b)
  rwa [h] at hb

/-- The rule for the function of a call asks for the arguments that the call has. -/
theorem Expr.Sound.takes {head : CallHead} {args : List Expr}
    (h : (Expr.call head args).Sound fun _ => False) {f : Flavor} {r : Rule}
    (hr : f.dialect.rule? head.function = some r) : r.takes args.length = true := by
  obtain ⟨g, ⟨b, rfl⟩ | hnone, hname, hlength⟩ := h
  · rw [hname] at hr
    exact hlength ▸ Flavor.takes_params ((f.dialect_rule?_name b).symm.trans hr)
  · exact hnone.elim

/-- A call has in it the arguments that its rule asks for. -/
theorem Expr.call_includes {s : Site} {head : CallHead} {r : Rule}
    (hr : s.dialect.rule? head.function = some r) {args : List Expr} {a : Expr}
    (ha : a ∈ r.written args) :
    Includes ((Expr.call head args).write s) (a.write s) := by
  have hmem : (⟨a, a.write s⟩ : Argument) ∈ r.written (args.map fun e => ⟨e, e.write s⟩) := by
    rw [← Rule.map_written]
    exact List.mem_map_of_mem ha
  rw [Expr.write, Expr.arguments_eq_map]
  exact Site.call_includes hr hmem

/-! ## Clauses -/

theorem Cond.exists_includes_write? {s : Site} {c : Option Cond} {e : Expr}
    (he : e ∈ Cond.exprs? c) :
    ∃ o ∈ Cond.write? s c, Includes o (e.write s) := by
  obtain ⟨d, hd, he⟩ := Cond.mem_exprs?_iff.mp he
  refine ⟨d.write s none, ?_, Cond.includes none he⟩
  rw [Cond.write?_eq_map]
  exact Option.mem_map_of_mem _ hd

theorem Join.includes {s : Site} {j : Join} {e : Expr} (he : e ∈ Cond.exprs? j.condition) :
    Includes (j.write s) (e.write s) := by
  obtain ⟨d, hd, he⟩ := Cond.mem_exprs?_iff.mp he
  intro ts hts
  obtain ⟨xs, hxs, hinfix⟩ := Join.write_condition hd hts
  obtain ⟨ys, hys, hinfix'⟩ := Cond.includes none he xs hxs
  exact ⟨ys, hys, hinfix'.trans ((s.infix_introduced _ xs).trans hinfix)⟩

theorem Site.item_includes {s : Site} {i : Item} : Includes (i.write s) (i.expr.write s) := by
  rw [Item.write_eq]
  refine includes_map (fun ts => ?_) _
  unfold Site.item
  split
  · exact (List.prefix_append _ _).isInfix
  · exact List.infix_rfl

theorem Site.assignment_includes {s : Site} {a : Assignment} :
    Includes (a.write s) (a.value.write s) := by
  rw [Assignment.write_eq]
  exact includes_map (fun ts => ((List.suffix_cons _ _).trans (List.suffix_cons _ _)).isInfix) _

theorem Expr.write_mem_outcomes {s : Site} {es : List Expr} {e : Expr} (he : e ∈ es) :
    e.write s ∈ (Expr.arguments s es).map Argument.outcome := by
  rw [Expr.arguments_eq_map, List.map_map]
  exact List.mem_map_of_mem he

namespace Query

variable {q : Query} {c : Statement}

/-- A sound statement has each expression of its clauses in one of the parts that it writes. -/
theorem Sound.exists_part (h : q.Sound) (hc : q.command = .statement c) (s : Site) {e : Expr}
    (he : e ∈ q.exprs) : ∃ o ∈ (q.parts s).written c, Includes o (e.write s) := by
  rcases mem_exprs_iff.mp he with ⟨i, hi, rfl⟩ | ⟨j, hj, he⟩ | he | he | he | he | ⟨row, hrow, he⟩ |
    ⟨a, ha, rfl⟩
  · have hselect := h.projection (List.ne_nil_of_mem hi)
    obtain rfl : c = .select := by simpa [hc] using hselect
    have hmem : i.write s ∈ (q.parts s).projection := by
      rw [parts, Item.writeEach_eq_map]
      exact List.mem_map_of_mem hi
    exact ⟨i.write s, by simp [Parts.written, hmem], Site.item_includes⟩
  · have hadmits := h.joins (List.ne_nil_of_mem hj)
    obtain rfl : c = .select := statement_eq_of_admits hc hadmits (by decide)
    have hmem : j.write s ∈ (q.parts s).joins := by
      rw [parts, Join.writeEach_eq_map]
      exact List.mem_map_of_mem hj
    exact ⟨j.write s, by simp [Parts.written, hmem], Join.includes he⟩
  · obtain ⟨o, ho, hincludes⟩ := Cond.exists_includes_write? (s := s) he
    have hadmits := h.filter fun hnone => by rw [hnone] at he; cases he
    rw [hc] at hadmits
    have hmem : o ∈ (q.parts s).filter.toList := Option.mem_toList.mpr ho
    refine ⟨o, ?_, hincludes⟩
    cases c <;> first | (cases hadmits; done) | simp [Parts.written, hmem]
  · have hadmits := h.grouping (List.ne_nil_of_mem he)
    obtain rfl : c = .select := statement_eq_of_admits hc hadmits (by decide)
    have hmem : e.write s ∈ (q.parts s).grouping := Expr.write_mem_outcomes he
    exact ⟨e.write s, by simp [Parts.written, hmem], includes_refl _⟩
  · obtain ⟨o, ho, hincludes⟩ := Cond.exists_includes_write? (s := s) he
    have hselect := h.having fun hnone => by rw [hnone] at he; cases he
    obtain rfl : c = .select := by simpa [hc] using hselect
    have hmem : o ∈ (q.parts s).having.toList := Option.mem_toList.mpr ho
    exact ⟨o, by simp [Parts.written, hmem], hincludes⟩
  · have hadmits := h.ordering (List.ne_nil_of_mem he)
    obtain rfl : c = .select := statement_eq_of_admits hc hadmits (by decide)
    have hmem : e.write s ∈ (q.parts s).ordering := Expr.write_mem_outcomes he
    exact ⟨e.write s, by simp [Parts.written, hmem], includes_refl _⟩
  · have hadmits := (h.rows (List.ne_nil_of_mem hrow)).1
    obtain rfl : c = .insert := statement_eq_of_admits hc hadmits (by decide)
    refine ⟨e.write s, List.mem_flatten.mpr ⟨row.map fun e => e.write s, ?_, ?_⟩, includes_refl _⟩
    · rw [parts, Expr.rows_eq_map]
      exact List.mem_map_of_mem hrow
    · exact List.mem_map_of_mem he
  · have hadmits := h.assignments (List.ne_nil_of_mem ha)
    obtain rfl : c = .update := statement_eq_of_admits hc hadmits (by decide)
    have hmem : a.write s ∈ (q.parts s).assignments := by
      rw [parts, Assignment.writeEach_eq_map]
      exact List.mem_map_of_mem ha
    exact ⟨a.write s, by simp [Parts.written, hmem], Site.assignment_includes⟩

theorem Sound.includes (h : q.Sound) (hc : q.command = .statement c) (d : Dialect)
    (outer : List Table) {e : Expr} (he : e ∈ q.exprs) :
    Includes (q.write d outer) (e.write (q.site d outer)) := by
  obtain ⟨o, ho, hincludes⟩ := h.exists_part hc (q.site d outer) he
  rw [write_eq]
  refine (Site.statement_includes hc (fun hq => ?_) ho).trans hincludes
  rw [parts, hq]
  rfl

end Query

/-! ## At any depth -/

theorem Query.exists_command {q : Query} {d : Dialect} {outer : List Table} {ts : Tokens}
    (h : q.write d outer = .ok ts) : ∃ c, q.command = .statement c := by
  rw [write_eq] at h
  obtain ⟨c, -, hc, -⟩ := Site.statement_eq_ok h
  exact ⟨c, hc⟩

/-- In the first expression stands the second one, and not among arguments that the rule of a call
passes over. -/
inductive Expr.Displays : Site → Expr → Site → Expr → Prop
  | self (s : Site) (e : Expr) : Displays s e s e
  | argument {s s' : Site} {head : CallHead} {args : List Expr} {r : Rule} {a x : Expr}
      (hr : s.dialect.rule? head.function = some r) (ha : a ∈ r.written args)
      (h : Displays s a s' x) : Displays s (.call head args) s' x
  | subquery {s s' : Site} {q : Query} {e x : Expr} (he : e ∈ q.exprs)
      (h : Displays (q.site s.dialect (s.own ++ s.outer)) e s' x) : Displays s (.subquery q) s' x

/-- In the query stands the expression, and not among arguments that the rule of a call passes
over. -/
def Query.Displays (d : Dialect) (outer : List Table) (q : Query) (s : Site) (x : Expr) : Prop :=
  ∃ e ∈ q.exprs, e.Displays (q.site d outer) s x

variable {f : Flavor} {s s' : Site} {e x : Expr}

theorem Expr.Displays.contains (h : e.Displays s s' x) : e.Contains s s' x := by
  induction h with
  | self s e => exact .self s e
  | argument _ ha _ ih => exact .argument (Rule.mem_of_mem_written ha) ih
  | subquery he _ ih => exact .subquery he ih

theorem Expr.Contains.dialect_eq (h : e.Contains s s' x) : s'.dialect = s.dialect := by
  induction h with
  | self => rfl
  | argument _ _ ih => exact ih
  | subquery _ _ ih => exact ih

theorem Query.Displays.dialect_eq {q : Query} {d : Dialect} {outer : List Table}
    (h : q.Displays d outer s x) : s.dialect = d := by
  obtain ⟨e, -, h⟩ := h
  exact h.contains.dialect_eq

/-- What is displayed in an expression that is written is written, as a stretch of it. -/
theorem Expr.Displays.includes {G : Signature → Prop} (h : e.Displays s s' x) (he : e.AllSound G) :
    Includes (e.write s) (x.write s') := by
  induction h with
  | self s e => exact includes_refl _
  | argument hr ha _ ih =>
    obtain ⟨-, hargs⟩ := everywhere_call_iff.mp he
    exact (Expr.call_includes hr ha).trans (ih (hargs _ (Rule.mem_of_mem_written ha)))
  | subquery hx _ ih =>
    obtain ⟨⟨hsound, c, hc⟩, hq⟩ := everywhere_subquery_iff.mp he
    rw [Expr.write]
    exact (includes_map infix_enclosed _).trans ((hsound.includes hc _ _ hx).trans (ih (hq _ hx)))

/-- The rules for the functions at hand from the start pass over no argument. -/
theorem Expr.Contains.displays (h : e.Contains s s' x) (hs : s.dialect = f.dialect)
    (he : e.AllSound fun _ => False) {ts : Tokens} (hts : e.write s = .ok ts) :
      e.Displays s s' x := by
  induction h generalizing ts with
  | self s e => exact .self s e
  | @argument s _ head args a _ ha _ ih =>
    obtain ⟨hsound, hargs⟩ := everywhere_call_iff.mp he
    cases hr : s.dialect.rule? head.function with
    | none =>
      rw [Expr.write, Site.call, hr] at hts
      cases hts
    | some r =>
      have hwritten : a ∈ r.written args := by rwa [Rule.written_eq (hsound.takes (hs ▸ hr))]
      obtain ⟨xs, hxs, -⟩ := Expr.call_includes hr hwritten ts hts
      exact .argument hr hwritten (ih hs (hargs a ha) hxs)
  | @subquery s _ q e _ hx _ ih =>
    obtain ⟨⟨hsound, c, hc⟩, hq⟩ := everywhere_subquery_iff.mp he
    rw [Expr.write] at hts
    obtain ⟨us, hus, -⟩ := map_eq_ok_iff.mp hts
    obtain ⟨xs, hxs, -⟩ := hsound.includes hc s.dialect (s.own ++ s.outer) hx us hus
    exact .subquery hx (ih hs (hq e hx) hxs)

namespace Query.AllSound

variable {q : Query} {outer : List Table}

/-- What is displayed in a statement that is written is written, as a stretch of it. -/
theorem displays_includes {G : Signature → Prop} (hq : q.AllSound G) {d : Dialect}
    (h : q.Displays d outer s x) : Includes (q.write d outer) (x.write s) := by
  obtain ⟨e, he, h⟩ := h
  intro ts hts
  obtain ⟨c, hc⟩ := exists_command hts
  exact (hq.whole.includes hc _ _ he).trans (h.includes (hq.everywhere e he)) ts hts

theorem displays_iff_contains (hq : q.AllSound fun _ => False) {ts : Tokens}
    (hts : q.write f.dialect outer = .ok ts) :
    q.Displays f.dialect outer s x ↔ q.Contains f.dialect outer s x := by
  constructor
  · rintro ⟨e, he, h⟩
    exact ⟨e, he, h.contains⟩
  · rintro ⟨e, he, h⟩
    obtain ⟨c, hc⟩ := exists_command hts
    obtain ⟨xs, hxs, -⟩ := hq.whole.includes hc _ _ he ts hts
    exact ⟨e, he, h.displays rfl (hq.everywhere e he) hxs⟩

/-- What stands in a statement that is written is written, as a stretch of it. -/
theorem contains_includes (hq : q.AllSound fun _ => False) (h : q.Contains f.dialect outer s x) :
    s.dialect = f.dialect ∧ Includes (q.write f.dialect outer) (x.write s) := by
  refine ⟨?_, fun ts hts => hq.displays_includes ((hq.displays_iff_contains hts).mpr h) ts hts⟩
  obtain ⟨e, -, h⟩ := h
  exact h.dialect_eq

end Query.AllSound

end SqlDraft
