import SqlDraft.Proofs.Drafting.Complete
import SqlDraft.Proofs.Layout.Enclosure
import SqlDraft.Proofs.Literals
import SqlDraft.Proofs.Scope.Widening

/-! Queries within queries. A query of any command may stand as an expression, and its text then
stands in parentheses: all that begins there as a statement does is the text of a query that is
embedded, at whatever depth, and begins with the word of that query's command
(`Query.MadeOf.statementsIn_compile`). So the texts in parentheses are selects alone just when no
other query is embedded, and nothing keeps another one out. What is embedded in an argument that the
rule of its call passes over is left out with it. -/

namespace SqlDraft

open Reading Sql Nest

variable {f : Flavor} {c : LetterCase} {S : Nest → Prop} {G : Signature → Prop}

/-! ## What is embedded -/

/-- What is written of the queries that are displayed in the expression is granted. -/
def Expr.Grants (f : Flavor) (c : LetterCase) (S : Nest → Prop) (s : Site) (e : Expr) : Prop :=
  ∀ s' r ts, e.Displays s s' (.subquery r) → r.write f.dialect (s'.own ++ s'.outer) = .ok ts →
    S (before (lexed f c ts) nil)

mutual

theorem Cond.subordinate {s : Site} (hs : s.dialect = f.dialect) :
    ∀ {k : Cond} (within : Option Joiner),
    (∀ e ∈ k.exprs, Yields (Subordinate f c S) (e.write s)) →
    Yields (Subordinate f c S) (k.write s within)
  | .predicate e, within, h => by
    rw [Cond.write]
    refine (h e (List.mem_singleton_self _)).map fun ts hts => ?_
    cases within with
    | none => exact hts
    | some j => exact Site.operand_subordinate hts _ e
  | .group k, _, h => by
    rw [Cond.write]
    exact (Cond.subordinate (k := k) hs none h).map fun _ hts => hts.enclosed
  | .joined j ks, within, h => by
    intro ts hts
    rw [Cond.write] at hts
    obtain ⟨tss, htss, hts⟩ := bind_eq_ok_iff.mp hts
    cases hts
    have hword : Guarded f c S [s.keyword (.joiner j), Tokens.space] :=
      (Site.keyword_guarded hs _).cons guarded_space
    have hall : Subordinate f c S
        (Tokens.separated [Tokens.space, s.keyword (.joiner j), Tokens.space] tss) :=
      .separated (guarded_space.cons hword) (splits_space hword.lies)
        (forall_of_gather (Cond.subordinate_each hs (some j) h) htss)
    split
    · exact hall.enclosed
    · exact hall

theorem Cond.subordinate_each {s : Site} (hs : s.dialect = f.dialect) :
    ∀ {ks : List Cond} (within : Option Joiner),
      (∀ e ∈ Cond.exprsEach ks, Yields (Subordinate f c S) (e.write s)) →
        ∀ o ∈ Cond.writeEach s within ks, Yields (Subordinate f c S) o
  | [], _, _ => List.forall_mem_nil _
  | _ :: _, within, h => by
    obtain ⟨hk, hks⟩ := List.forall_mem_append.mp h
    exact List.forall_mem_cons.mpr
      ⟨Cond.subordinate hs within hk, Cond.subordinate_each hs within hks⟩

end

/-- A statement whose expressions do not begin as statements do has in parentheses what they
have. -/
theorem Query.guarded {q : Query} {outer : List Table}
    (h : ∀ e ∈ q.exprs, Yields (Subordinate f c S) (e.write (q.site f.dialect outer))) :
    Yields (Guarded f c S) (q.write f.dialect outer) := by
  generalize hs : q.site f.dialect outer = s at h
  have hdialect : s.dialect = f.dialect := hs ▸ rfl
  have hparts : Tree.Holds (fun e => Yields (Subordinate f c S) (e.write s))
      (fun k => ∀ within, Yields (Subordinate f c S) (k.write s within)) q :=
    Tree.Holds.of_exprs (P := fun e => Yields (Subordinate f c S) (e.write s))
      ⟨fun _ _ h => h, fun _ _ _ _ h within => Cond.subordinate hdialect within h,
        fun _ _ h within => Cond.subordinate hdialect within h, fun _ _ h => h,
        fun _ _ h within => Cond.subordinate hdialect within h, fun _ _ h => h, fun _ _ _ _ h => h,
        fun _ _ h => h⟩ h
  have condition {k : Option Cond}
      (hk : ∀ k' ∈ k, ∀ within, Yields (Subordinate f c S) (k'.write s within)) :
      ∀ o ∈ Cond.write? s k, Yields (Guarded f c S) o := by
    rw [Cond.write?_eq_map]
    intro o ho
    obtain ⟨k', hk', rfl⟩ := Option.mem_map.mp ho
    exact (hk k' hk' none).mono fun _ hts => hts.toGuarded
  have each {es : List Expr} (hes : ∀ e ∈ es, Yields (Subordinate f c S) (e.write s)) :
      ∀ o ∈ (Expr.arguments s es).map Argument.outcome, Yields (Guarded f c S) o := by
    rw [Expr.arguments_eq_map, List.map_map]
    intro o ho
    obtain ⟨e, he, rfl⟩ := List.mem_map.mp ho
    exact (hes e he).mono fun _ hts => hts.toGuarded
  rw [Query.write_eq, hs]
  refine Site.statement_guarded hdialect
    { projection := fun o ho => ?_
      joins := fun o ho => ?_
      filter := condition hparts.filter
      grouping := each hparts.grouping
      having := condition hparts.having
      ordering := each hparts.ordering
      rows := fun row hrow => ?_
      assignments := fun o ho => ?_ }
  · rw [parts, Item.writeEach_eq_map] at ho
    obtain ⟨i, hi, rfl⟩ := List.mem_map.mp ho
    rw [Item.write_eq]
    exact (hparts.projection i hi).map fun _ hts => Site.item_guarded hdialect _ hts.toGuarded
  · rw [parts, Join.writeEach_eq_map] at ho
    obtain ⟨j, hj, rfl⟩ := List.mem_map.mp ho
    rw [Join.write_eq]
    exact Site.join_guarded hdialect j (condition (hparts.joins j hj))
  · rw [parts, Expr.rows_eq_map] at hrow
    obtain ⟨es, hes, rfl⟩ := List.mem_map.mp hrow
    intro o ho
    obtain ⟨e, he, rfl⟩ := List.mem_map.mp ho
    exact hparts.rows es hes e he
  · rw [parts, Assignment.writeEach_eq_map] at ho
    obtain ⟨a, ha, rfl⟩ := List.mem_map.mp ho
    rw [Assignment.write_eq]
    exact (hparts.assignments a ha).map fun _ hts =>
      Site.assignment_guarded hdialect _ hts.toGuarded

/-- No expression begins as a statement does, and in parentheses it has no others than the queries
in it. -/
theorem Expr.subordinate (e : Expr) : ∀ {s : Site}, s.dialect = f.dialect → e.Grants f c S s →
    Yields (Subordinate f c S) (e.write s) := by
  induction e using Expr.induction with
  | column col =>
    intro s hs _ ts hts
    rw [Expr.write] at hts
    exact (inert_column hs hts).subordinate
  | star t =>
    intro s hs _ ts hts
    rw [Expr.write] at hts
    exact (inert_star hs hts).subordinate
  | literal v t =>
    intro s hs _
    rw [Expr.write]
    exact Site.literal_subordinate hs t v
  | list vs t =>
    intro s hs _ ts hts
    rw [Expr.write] at hts
    split at hts
    · cases hts
    · obtain ⟨tss, htss, rfl⟩ := map_eq_ok_iff.mp hts
      refine (Subordinate.listed (forall_of_gather (fun o ho => ?_) htss)).enclosed
      obtain ⟨v, -, rfl⟩ := List.mem_map.mp ho
      exact Site.literal_subordinate hs t v
  | call head args ih =>
    intro s hs h
    rw [Expr.write, Expr.arguments_eq_map]
    refine Site.call_subordinate hs fun r hr a ha => ?_
    rw [← Rule.map_written] at ha
    obtain ⟨e, he, rfl⟩ := List.mem_map.mp ha
    exact ih e (Rule.mem_of_mem_written he) hs fun s' q ts hq =>
      h s' q ts (.argument (hs ▸ hr) he hq)
  | subquery q ih =>
    intro s hs h ts hts
    rw [Expr.write, hs] at hts
    obtain ⟨us, hus, rfl⟩ := map_eq_ok_iff.mp hts
    have hinside : Guarded f c S us := Query.guarded (fun e he => ih e he rfl fun s' r ts hr =>
      h s' r ts (.subquery he (hs ▸ hr))) us hus
    exact hinside.enclosed fun _ => h s q us (.self _ _) hus

/-- A statement in the parentheses of a query's text is that of a query which is embedded, and the
other way round. -/
theorem Query.MadeOf.mem_groups_iff {q : Query} (hq : q.MadeOf G) {ts : Tokens}
    (hts : q.write f.dialect [] = .ok ts) {g : Nest} {k : Statement} :
    (g ∈ (before (lexed f c ts) nil).groups ∧ f.opening c k = g.lead) ↔
      ∃ s r us, q.Displays f.dialect [] s (.subquery r) ∧ r.command = .statement k ∧
        r.write f.dialect (s.own ++ s.outer) = .ok us ∧ before (lexed f c us) nil = g := by
  constructor
  · rintro ⟨hg, hlead⟩
    let Embedded (g : Nest) : Prop := ∃ s r us, q.Displays f.dialect [] s (.subquery r) ∧
      r.write f.dialect (s.own ++ s.outer) = .ok us ∧ before (lexed f c us) nil = g
    have hguarded : Guarded f c Embedded ts := Query.guarded (fun e he =>
      e.subordinate rfl fun s r us hr hus => ⟨s, r, us, ⟨e, he, hr⟩, hus, rfl⟩) ts hts
    obtain ⟨s, r, us, hr, hus, rfl⟩ :=
      hguarded.granted g hg (Flavor.mem_statements_iff.mpr ⟨k, hlead⟩)
    obtain ⟨-, k', hk', hlead'⟩ := statement_begins (c := c) hus
    obtain rfl := f.opening_injective c (hlead.trans hlead')
    exact ⟨s, r, us, hr, hk', hus, rfl⟩
  · rintro ⟨s, r, us, hr, hk, hus, rfl⟩
    obtain ⟨xs, hxs, front, back, rfl⟩ := hq.allSound.displays_includes hr ts hts
    rw [Expr.write, hr.dialect_eq, hus] at hxs
    cases hxs
    obtain ⟨hlies, k', hk', hlead⟩ := statement_begins (c := c) hus
    obtain rfl := Command.statement.inj (hk.symm.trans hk')
    refine ⟨?_, hlead.symm⟩
    have hall := (write_woven q [] hts).lies c
    change Lies (lexed f c _) at hall
    rw [lexed_append, lexed_append, lexed_enclosed] at hall ⊢
    exact mem_groups_before hlies hall

/-! ## What a text has in parentheses -/

theorem statement_text {q : Query} {outer : List Table} {ts : Tokens}
    (h : q.write f.dialect outer = .ok ts) :
    (before (lexed f c ts) nil).text = (ts.write c).toList := by
  rw [text_before (statement_begins h).1, flatMap_text_lexed, Nest.text, List.append_nil]
  rfl

namespace Flavor

/-- The command whose word stands at the beginning of a statement. -/
def command? (f : Flavor) (c : LetterCase) (w : Word) : Option Statement :=
  Statement.all.find? fun k => f.opening c k = w

/-- The statements that stand in parentheses in a text, at any depth: the command of each, and its
text. -/
def statementsIn? (f : Flavor) (c : LetterCase) (text : List Char) :
    Option (List (Statement × List Char)) :=
  (nest? (scan f.lexis text)).map fun n =>
    n.groups.filterMap fun g => (f.command? c g.lead).map (·, g.text)

theorem command?_eq_some_iff {w : Word} {k : Statement} :
    f.command? c w = some k ↔ f.opening c k = w := by
  constructor
  · intro h
    simpa using List.find?_some h
  · rintro rfl
    have hsome : (f.command? c (f.opening c k)).isSome :=
      List.find?_isSome.mpr ⟨k, Statement.mem_all k, decide_eq_true rfl⟩
    obtain ⟨j, hj⟩ := Option.isSome_iff_exists.mp hsome
    have hopening : f.opening c j = f.opening c k := by simpa using List.find?_some hj
    rw [hj, f.opening_injective c hopening]

end Flavor

/-- What a text is finished with has no parentheses. -/
theorem Finish.groups_tail (finish : Finish) :
    Lies (finish.tail.toList.map .char) ∧
    (before (finish.tail.toList.map .char) nil).groups = [] := by
  have hfree : ∀ x ∈ finish.tail.toList, Flavor.isFree x = true := by
    unfold tail
    split <;> exact List.all_eq_true.mp (by decide)
  exact ⟨lies_of_isFree hfree, groups_chars hfree⟩

theorem Flavor.statementsIn?_finished {q : Query} {ts : Tokens}
    (hts : q.write f.dialect [] = .ok ts) (finish : Finish) :
    f.statementsIn? finish.letterCase (ts.write finish.letterCase ++ finish.tail).toList =
      some ((before (lexed f finish.letterCase ts) nil).groups.filterMap fun g =>
        (f.command? finish.letterCase g.lead).map (·, g.text)) := by
  have hwoven := write_woven q [] hts
  have hlies : Lies (lexed f finish.letterCase ts) := hwoven.lies finish.letterCase
  obtain ⟨htail, hgroups⟩ := finish.groups_tail
  rw [statementsIn?, scan_finished hwoven]
  change (nest? (lexed f finish.letterCase ts ++ _)).map _ = _
  rw [(hlies.append htail).nest?, Option.map_some, groups_append hlies htail, hgroups,
    List.append_nil]

/-- A select from the table that lists the query. -/
def Query.listing (q : Query) (t : Table) : Query :=
  { command := .statement .select, table := some t, projection := [⟨.subquery q, none⟩] }

/-- Whatever its command, a query is listed as any other. -/
theorem Query.MadeOf.listing {q : Query} {k : Statement} (hq : q.MadeOf G)
    (hk : q.command = .statement k) (t : Table) : (q.listing t).MadeOf G := by
  have hitem : Listed.MadeOf G (.operand (.query q)) := .operand (.query hq hk)
  have hselect : Query.select [.operand (.query q)] =
      .ok { command := .statement .select, projection := [⟨.subquery q, none⟩] } := rfl
  have htarget : Query.target
      { command := .statement .select, projection := [⟨.subquery q, none⟩] } t =
      .ok (q.listing t) := rfl
  exact .called (.started (.select (List.forall_mem_singleton.mpr hitem) hselect)) (.target htarget)

/-- A query that can be written on its own can be written as an item. -/
theorem Query.exists_write_listing {q : Query} {ts : Tokens}
    (h : q.write f.dialect [] = .ok ts) (t : Table) :
    ∃ us, (q.listing t).write f.dialect [] = .ok us := by
  have hts : q.write f.dialect [t] = .ok ts := q.keeps_write f.dialect (List.nil_subset _) ts h
  let s : Site := ⟨f.dialect, [t], []⟩
  have hitem : Item.write s ⟨.subquery q, none⟩ = .ok ts.enclosed := by
    rw [Item.write_eq, Expr.write]
    change ((q.write f.dialect [t]).map Tokens.enclosed).map _ = _
    rw [hts]
    rfl
  have hprojection : s.projection (q.listing t) ((q.listing t).parts s) =
      .ok (Tokens.listed [ts.enclosed]) := by
    change (gather [Item.write s ⟨.subquery q, none⟩]).map Tokens.listed = _
    rw [hitem]
    rfl
  rw [Query.write_eq]
  change ∃ us, (if Statement.select ∈ f.dialect.commands
    then s.select (q.listing t) ((q.listing t).parts s) else _) = .ok us
  rw [if_pos (f.mem_commands .select)]
  unfold Site.select
  rw [hprojection]
  exact ⟨_, rfl⟩

/-- An embedded query of a text has been written, as a statement of its command. -/
theorem Query.MadeOf.exists_write {q : Query} (hq : q.MadeOf G) {ts : Tokens}
    (hts : q.write f.dialect [] = .ok ts) {s : Site} {r : Query}
    (hr : q.Displays f.dialect [] s (.subquery r)) :
    ∃ k us, r.command = .statement k ∧ r.write f.dialect (s.own ++ s.outer) = .ok us := by
  obtain ⟨xs, hxs, -⟩ := hq.allSound.displays_includes hr ts hts
  rw [Expr.write, hr.dialect_eq] at hxs
  obtain ⟨us, hus, -⟩ := map_eq_ok_iff.mp hxs
  obtain ⟨k, hk⟩ := exists_command hus
  exact ⟨k, us, hk, hus⟩

/-- The statements that stand in parentheses in a text are those of the queries displayed in it,
each of the command of its query. All of them are selects just when all these queries are; and
nothing asks for that: whatever has a text on its own is listed by a select that has one. Of
functions that are at hand from the start every argument is displayed, and so every query that
stands in the whole. -/
theorem Query.MadeOf.statementsIn_compile {q : Query} (hq : q.MadeOf G) {f : Flavor}
    {finish : Finish} {text : String} (htext : q.compile f.dialect finish = .ok text) :
    (∃ l, f.statementsIn? finish.letterCase text.toList = some l ∧
      (∀ k t, (k, t) ∈ l ↔
        ∃ s r us, q.Displays f.dialect [] s (.subquery r) ∧ r.command = .statement k ∧
        r.write f.dialect (s.own ++ s.outer) = .ok us ∧ (us.write finish.letterCase).toList = t) ∧
      ((∀ e ∈ l, e.1 = .select) ↔
        ∀ s r, q.Displays f.dialect [] s (.subquery r) → r.command = .statement .select)) ∧
    (q.Made → ∀ s x, q.Displays f.dialect [] s x ↔ q.Contains f.dialect [] s x) ∧
    ∀ t : Table, (q.listing t).MadeOf G ∧
      ∃ other, (q.listing t).compile f.dialect finish = .ok other := by
  obtain ⟨ts, hts, rfl⟩ := compile_eq_ok_iff.mp htext
  have hmem (k : Statement) (t : List Char) :
      (k, t) ∈ ((before (lexed f finish.letterCase ts) nil).groups.filterMap fun g =>
        (f.command? finish.letterCase g.lead).map (·, g.text)) ↔
      ∃ s r us, q.Displays f.dialect [] s (.subquery r) ∧ r.command = .statement k ∧
        r.write f.dialect (s.own ++ s.outer) = .ok us ∧
        (us.write finish.letterCase).toList = t := by
    simp only [List.mem_filterMap, Option.map_eq_some_iff, Prod.mk.injEq,
      Flavor.command?_eq_some_iff]
    constructor
    · rintro ⟨g, hg, k', hlead, rfl, rfl⟩
      obtain ⟨s, r, us, hr, hk, hus, rfl⟩ := (hq.mem_groups_iff hts).mp ⟨hg, hlead⟩
      exact ⟨s, r, us, hr, hk, hus, (statement_text hus).symm⟩
    · rintro ⟨s, r, us, hr, hk, hus, rfl⟩
      obtain ⟨hg, hlead⟩ := (hq.mem_groups_iff hts).mpr ⟨s, r, us, hr, hk, hus, rfl⟩
      exact ⟨_, hg, k, hlead, rfl, statement_text hus⟩
  refine ⟨⟨_, f.statementsIn?_finished hts finish, hmem, fun hall s r hr => ?_,
    fun hall e he => ?_⟩, fun hmade _ _ => hmade.allSound.displays_iff_contains hts, fun t => ?_⟩
  · obtain ⟨k, us, hk, hus⟩ := hq.exists_write hts hr
    exact hk.trans (congrArg _ (hall (k, _) ((hmem k _).mpr ⟨s, r, us, hr, hk, hus, rfl⟩)))
  · obtain ⟨s, r, us, hr, hk, -, -⟩ := (hmem e.1 e.2).mp he
    exact Command.statement.inj (hk.symm.trans (hall s r hr))
  · obtain ⟨k, hk⟩ := exists_command hts
    obtain ⟨us, hus⟩ := exists_write_listing hts t
    exact ⟨hq.listing hk t, _, compile_eq_ok_iff.mpr ⟨us, hus, rfl⟩⟩

/-- A delete in the items of a select, which is an item itself. -/
theorem Query.MadeOf.statementsIn_compile_listed :
    let t : Table := { serial := 0, name := "t" }
    let u : Table := { serial := 1, name := "u" }
    let d : Query := { command := .statement .delete, table := some u }
    let q : Query := (d.listing t).listing t
    let text := "SELECT (SELECT (DELETE FROM u) FROM t) FROM t"
    q.Made ∧ q.compile .mysql ⟨.upper, false⟩ = .ok text ∧
      (∃ l, Flavor.mysql.statementsIn? .upper text.toList = some l ∧
        (.delete, "DELETE FROM u".toList) ∈ l ∧
        ¬∀ e ∈ l, e.1 = .select) ∧
      (q.listing t).Made ∧ ∃ other, (q.listing t).compile .mysql ⟨.upper, false⟩ = .ok other := by
  intro t u d q text
  have htarget : Query.delete.target u = .ok d := rfl
  have hd : d.Made := .called (.started .delete) (.target htarget)
  have hq : q.Made := (hd.listing rfl t).listing rfl t
  have htext : q.compile .mysql ⟨.upper, false⟩ = .ok text := by decide +kernel
  have hcontains : q.Contains .mysql [] ⟨.mysql, [t], [t]⟩ (.subquery d) :=
    ⟨_, List.mem_cons_self, .subquery List.mem_cons_self (.self _ _)⟩
  have hwrite : d.write .mysql [t, t] =
      .ok [.word "delete from", .mark " ", .name "u"] := by decide +kernel
  obtain ⟨⟨l, hl, hmem, -⟩, hshown, hlisting⟩ := hq.statementsIn_compile (f := .mysql) htext
  have hdelete : (.delete, "DELETE FROM u".toList) ∈ l :=
    (hmem .delete _).mpr ⟨_, d, _, (hshown hq _ _).mpr hcontains, rfl, hwrite, by decide⟩
  exact ⟨hq, htext, ⟨l, hl, hdelete, fun h => absurd (h _ hdelete) (by decide)⟩, hlisting t⟩

/-- A delete in the items of a select. -/
theorem Query.MadeOf.statementsIn_not_select :
    let t : Table := { serial := 0, name := "t" }
    let u : Table := { serial := 1, name := "u" }
    let d : Query := { command := .statement .delete, table := some u }
    let q : Query := d.listing t
    (d.Made ∧ q.Made ∧ q.command = .statement .select) ∧
      q.compile .generic = .ok "select (delete from u) from t;" ∧
      Flavor.generic.statementsIn? .lower "select (delete from u) from t;".toList =
        some [(.delete, "delete from u".toList)] := by
  intro t u d q
  have htarget : Query.delete.target u = .ok d := rfl
  have hd : d.Made := .called (.started .delete) (.target htarget)
  exact ⟨⟨hd, hd.listing rfl t, rfl⟩, by decide +kernel, by decide +kernel⟩

end SqlDraft
