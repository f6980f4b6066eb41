import Mathlib.Data.List.Forall2
import SqlDraft.Query.Payload
import SqlDraft.Query.Shape
import SqlDraft.Sql.Outcomes

/-! What the methods of a draft do. A method that is not refused changes one thing about the draft
and leaves all else as it was; each lemma says what the method asked for and gives the draft it
made. -/

namespace SqlDraft

open Sql

variable {α β : Type}

/-! ## Outcomes of lists -/

theorem mapM_eq_ok_iff {f : α → Outcome β} {as : List α} {bs : List β} :
    as.mapM f = .ok bs ↔ as.map f = bs.map .ok := by
  induction as generalizing bs with
  | nil => cases bs <;> simp [pure, Except.pure]
  | cons a as ih =>
    rw [List.mapM_cons, bind_eq_ok_iff]
    constructor
    · rintro ⟨b, hb, h⟩
      obtain ⟨bs', hbs, h⟩ := bind_eq_ok_iff.mp h
      cases h
      rw [List.map_cons, List.map_cons, hb, ih.mp hbs]
    · intro h
      cases bs with
      | nil => cases h
      | cons b bs =>
        obtain ⟨hb, hbs⟩ := List.cons.inj h
        exact ⟨b, hb, bind_eq_ok_iff.mpr ⟨bs, ih.mpr hbs, rfl⟩⟩

theorem exists_of_mem_mapM {f : α → Outcome β} {as : List α} {bs : List β} (h : as.mapM f = .ok bs)
    {b : β} (hb : b ∈ bs) : ∃ a ∈ as, f a = .ok b := by
  have hmem : (.ok b : Outcome β) ∈ as.map f := mapM_eq_ok_iff.mp h ▸ List.mem_map_of_mem hb
  exact List.mem_map.mp hmem

theorem mapM_eq_ok_iff_forall₂ {f : α → Outcome β} {as : List α} {bs : List β} :
    as.mapM f = .ok bs ↔ List.Forall₂ (fun a b => f a = .ok b) as bs := by
  rw [mapM_eq_ok_iff]
  induction as generalizing bs with
  | nil => cases bs <;> simp
  | cons a as ih => cases bs <;> simp [ih]

theorem exists_of_mem_forall₂ {R : α → β → Prop} {as : List α} {bs : List β}
    (h : List.Forall₂ R as bs) {b : β} (hb : b ∈ bs) : ∃ a ∈ as, R a b := by
  induction h with
  | nil => cases hb
  | @cons a b' as bs hr _ ih =>
    rcases List.mem_cons.mp hb with rfl | hb
    · exact ⟨a, List.mem_cons_self, hr⟩
    · obtain ⟨a', ha', hr⟩ := ih hb
      exact ⟨a', List.mem_cons_of_mem _ ha', hr⟩

/-- Two passes over a list succeed just when one pass does both for each member. -/
theorem mapM_bind_mapM_eq_ok_iff {γ : Type} {f : α → Outcome β} {g : β → Outcome γ} {as : List α}
    {cs : List γ} : (as.mapM f >>= List.mapM g) = .ok cs ↔
      as.mapM (fun a => f a >>= g) = .ok cs := by
  rw [bind_eq_ok_iff]
  simp only [mapM_eq_ok_iff_forall₂]
  constructor
  · rintro ⟨bs, hbs, hcs⟩
    induction hbs generalizing cs with
    | nil => cases hcs; exact .nil
    | cons hb _ ih =>
      cases hcs with
      | cons hc hcs => exact .cons (bind_eq_ok_iff.mpr ⟨_, hb, hc⟩) (ih hcs)
  · intro h
    induction h with
    | nil => exact ⟨[], .nil, .nil⟩
    | cons h _ ih =>
      obtain ⟨b, hb, hc⟩ := bind_eq_ok_iff.mp h
      obtain ⟨bs, hbs, hcs⟩ := ih
      exact ⟨b :: bs, .cons hb hbs, .cons hc hcs⟩

theorem Command.require_eq_ok {k : Command} {m : Method} {u : Unit} (h : k.require m = .ok u) :
    k.admits m = true := by
  unfold require at h
  split at h
  · assumption
  · cases h

namespace Query

variable {q r : Query}

theorem requireTable_eq_ok {m : Method} {t : Table} (h : q.requireTable m = .ok t) :
    q.table = some t := by
  unfold requireTable at h
  split at h
  · next hq => cases h; exact hq
  · cases h

/-! ## Target, grouping, order and number of rows -/

theorem target_eq_ok {t : Table} (h : q.target t = .ok r) :
    q.command.admits .target = true ∧ r = { q with table := some t } := by
  obtain ⟨u, hu, h⟩ := bind_eq_ok_iff.mp h
  cases h
  exact ⟨Command.require_eq_ok hu, rfl⟩

theorem groupBy_eq_ok {es : List Expr} (h : q.groupBy es = .ok r) :
    q.command.admits .groupBy = true ∧ (∀ e ∈ es, e.type.isCollection = true) ∧
      r = { q with grouping := q.grouping ++ es } := by
  obtain ⟨u, hu, h⟩ := bind_eq_ok_iff.mp h
  obtain ⟨nodes, hnodes, h⟩ := bind_eq_ok_iff.mp h
  cases h
  have hsame : ∀ {es nodes : List Expr}, (es.mapM fun e => if e.type.isCollection then .ok e else
      .error (.argument Method.groupBy.name (.notColumnBound e.type.describe)) : Outcome _) =
        .ok nodes → (∀ e ∈ es, e.type.isCollection = true) ∧ nodes = es := by
    intro es
    induction es with
    | nil => intro nodes h; cases h; exact ⟨List.forall_mem_nil _, rfl⟩
    | cons e es ih =>
      intro nodes h
      rw [List.mapM_cons] at h
      obtain ⟨e', he, h⟩ := bind_eq_ok_iff.mp h
      obtain ⟨rest, hrest, h⟩ := bind_eq_ok_iff.mp h
      cases h
      split at he
      · next hc =>
        cases he
        obtain ⟨hall, rfl⟩ := ih hrest
        exact ⟨List.forall_mem_cons.mpr ⟨hc, hall⟩, rfl⟩
      · cases he
  obtain ⟨hall, rfl⟩ := hsame hnodes
  exact ⟨Command.require_eq_ok hu, hall, rfl⟩

theorem orderBy_eq_ok {es : List Expr} (h : q.orderBy es = .ok r) :
    q.command.admits .orderBy = true ∧ ∃ nodes, es.mapM ordering? = .ok nodes ∧
      r = { q with ordering := q.ordering ++ nodes } := by
  obtain ⟨u, hu, h⟩ := bind_eq_ok_iff.mp h
  obtain ⟨nodes, hnodes, h⟩ := bind_eq_ok_iff.mp h
  cases h
  exact ⟨Command.require_eq_ok hu, nodes, hnodes, rfl⟩

theorem rowCount_eq_ok {m : Method} {n k : Float} (h : rowCount m n = .ok k) :
    k = n ∧ Decimal.isCount n = true := by
  unfold rowCount at h
  split at h
  · next hn => cases h; exact ⟨rfl, hn⟩
  · cases h

theorem fetch_eq_ok {n : Float} (h : q.fetch n = .ok r) :
    q.command.admits .fetch = true ∧ Decimal.isCount n = true ∧
      r = { q with limit := some n } := by
  obtain ⟨u, hu, h⟩ := bind_eq_ok_iff.mp h
  obtain ⟨k, hk, h⟩ := bind_eq_ok_iff.mp h
  cases h
  obtain ⟨rfl, hn⟩ := rowCount_eq_ok hk
  exact ⟨Command.require_eq_ok hu, hn, rfl⟩

theorem skip_eq_ok {n : Float} (h : q.skip n = .ok r) :
    q.command.admits .skip = true ∧ Decimal.isCount n = true ∧
      r = { q with offset := some n } := by
  obtain ⟨u, hu, h⟩ := bind_eq_ok_iff.mp h
  obtain ⟨k, hk, h⟩ := bind_eq_ok_iff.mp h
  cases h
  obtain ⟨rfl, hn⟩ := rowCount_eq_ok hk
  exact ⟨Command.require_eq_ok hu, hn, rfl⟩

theorem distinct_eq_ok (h : q.distinct = .ok r) :
    q.command.admits .distinct = true ∧ r = { q with isDistinct := true } := by
  obtain ⟨u, hu, h⟩ := bind_eq_ok_iff.mp h
  cases h
  exact ⟨Command.require_eq_ok hu, rfl⟩

theorem onlyIfExists_eq_ok (h : q.onlyIfExists = .ok r) :
    q.command.admits .ifExists = true ∧ r = { q with ifExists := true } := by
  obtain ⟨u, hu, h⟩ := bind_eq_ok_iff.mp h
  cases h
  exact ⟨Command.require_eq_ok hu, rfl⟩

theorem onlyIfMissing_eq_ok (h : q.onlyIfMissing = .ok r) :
    q.command.admits .ifNotExists = true ∧ r = { q with ifNotExists := true } := by
  obtain ⟨u, hu, h⟩ := bind_eq_ok_iff.mp h
  cases h
  exact ⟨Command.require_eq_ok hu, rfl⟩

/-! ## Joins -/

theorem changeLastJoin_eq_ok {m : Method} {change : Join → Outcome Join}
    (h : q.changeLastJoin m change = .ok r) : ∃ front last j, q.joins = front ++ [last] ∧
      last.kind ≠ .cross ∧ change last = .ok j ∧ r = { q with joins := front ++ [j] } := by
  unfold changeLastJoin at h
  split at h
  · cases h
  · next last hlast =>
    split at h
    · cases h
    · next hkind =>
      obtain ⟨j, hj, rfl⟩ := map_eq_ok_iff.mp h
      obtain ⟨front, hfront⟩ := List.getLast?_eq_some_iff.mp hlast
      refine ⟨front, last, j, hfront, hkind, hj, ?_⟩
      rw [hfront, List.dropLast_concat]

theorem share_eq_ok {columns : List String} (h : q.share columns = .ok r) :
    q.command.admits .shared = true ∧ columns ≠ [] ∧ ∃ front last, q.joins = front ++ [last] ∧
      last.kind ≠ .cross ∧ last.condition = none ∧
      r = { q with joins := front ++
        [{ last with shared := some (last.shared.getD [] ++ columns) }] } := by
  obtain ⟨u, hu, h⟩ := bind_eq_ok_iff.mp h
  dsimp only at h
  split at h
  · cases h
  · next hc =>
    obtain ⟨front, last, j, hq, hkind, hj, rfl⟩ := changeLastJoin_eq_ok h
    split at hj
    · cases hj
    · next hcondition =>
      cases hj
      exact ⟨Command.require_eq_ok hu,
        by simpa using hc, front, last, hq, hkind, by simpa using hcondition,
        rfl⟩

/-- A join without a draft of its own stands as it is. -/
theorem join_none_eq_ok {kind : JoinKind} {t : Table} (h : q.join kind t = .ok r) :
    q.command.admits (.join kind) = true ∧
      r = { q with joins := q.joins ++ [{ kind, table := t }] } := by
  obtain ⟨u, hu, h⟩ := bind_eq_ok_iff.mp h
  cases h
  exact ⟨Command.require_eq_ok hu, rfl⟩

/-- A join is the first one of the draft handed back. -/
theorem join_some_eq_ok {kind : JoinKind} {t : Table} {build : Query → Outcome Query}
    (h : q.join kind t (some build) = .ok r) :
    q.command.admits (.join kind) = true ∧ ∃ result j rest,
      build (.joining { kind, table := t }) = .ok result ∧ result.command = .scope .join ∧
      result.joins = j :: rest ∧ r = { q with joins := q.joins ++ [j] } := by
  obtain ⟨u, hu, h⟩ := bind_eq_ok_iff.mp h
  obtain ⟨result, hresult, h⟩ := bind_eq_ok_iff.mp h
  split at h
  · next hcommand hjoins =>
    cases h
    exact ⟨Command.require_eq_ok hu, result, _, _, hresult, hcommand, hjoins, rfl⟩
  · cases h

end Query

/-! ## Conditions -/

theorem Criterion.condition_operand_eq_ok {m : Method} {K : Clause} {o : Operand} {c : Cond}
    (h : (Criterion.operand o).condition m K = .ok c) :
    ∃ e, o.toExpr m.name = .ok e ∧ e.type.decides = true ∧ c = .predicate e := by
  obtain ⟨e, he, h⟩ := bind_eq_ok_iff.mp h
  split at h
  · next htype => cases h; exact ⟨e, he, htype, rfl⟩
  · cases h

theorem Criterion.condition_draft_eq_ok {m : Method} {K : Clause} {build : Query → Outcome Query}
    {c : Cond} (h : (Criterion.draft build).condition m K = .ok c) :
    ∃ result inside, build (.inScope (.condition K)) = .ok result ∧
      result.command = .scope (.condition K) ∧ result.filter = some inside ∧ c = .group inside := by
  obtain ⟨result, hresult, h⟩ := bind_eq_ok_iff.mp h
  dsimp only at h
  split at h
  · cases h
  · next hcommand =>
    split at h
    · next inside hinside =>
      cases h
      exact ⟨result, inside, hresult, by simpa using hcommand, hinside, rfl⟩
    · cases h

/-- Where a method keeps the condition it adds. -/
inductive Query.Restricts (K : Clause) (j : Joiner) (added : Cond) (q : Query) : Query → Prop
  | having (hK : K = .having) (hq : q.command.holds .having = true) :
      Restricts K j added q { q with having := some (.combine q.having j added) }
  | pairing {front : List Join} {last : Join} (hK : K = .pairing)
      (hq : q.command.holds .pairing = true)
      (hjoins : q.joins = front ++ [last]) (hkind : last.kind ≠ .cross)
      (hshared : last.shared = none) :
      Restricts K j added q { q with
        joins := front ++ [{ last with condition := some (.combine last.condition j added) }] }
  | filter (hK : K = .filter ∨ q.command.holds K = false) :
      Restricts K j added q { q with filter := some (.combine q.filter j added) }

theorem Query.restrict_eq_ok {q r : Query} {K : Clause} {link : Link} {a : Criterion}
    (h : q.restrict K link a = .ok r) : q.command.admits (.condition K link) = true ∧
      ∃ added, a.condition (.condition K link) K = .ok added ∧
        q.Restricts K link.joiner added r := by
  obtain ⟨u, hu, h⟩ := bind_eq_ok_iff.mp h
  obtain ⟨added, hadded, h⟩ := bind_eq_ok_iff.mp h
  refine ⟨Command.require_eq_ok hu, added, hadded, ?_⟩
  cases K with
  | filter => cases h; exact .filter (.inl rfl)
  | having =>
    cases hq : q.command.holds .having with
    | true => rw [hq] at h; cases h; exact .having rfl hq
    | false => rw [hq] at h; cases h; exact .filter (.inr hq)
  | pairing =>
    cases hq : q.command.holds .pairing with
    | false => rw [hq] at h; cases h; exact .filter (.inr hq)
    | true =>
      rw [hq] at h
      obtain ⟨front, last, j, hjoins, hkind, hj, rfl⟩ := changeLastJoin_eq_ok h
      split at hj
      · cases hj
      · next hshared => cases hj; exact .pairing rfl hq hjoins hkind (by simpa using hshared)

/-! ## Rows and assignments -/

namespace Query

variable {q r : Query}

/-- A row has a value for each column, in order, each checked against its column. -/
theorem rowValues_eq_ok_forall₂ {columns : List Column} {row : Catalog Operand} {values : List Expr}
    (h : rowValues columns row = .ok values) :
    List.Forall₂ (fun c e =>
      ((row.get? c.name).getD (.value .null)).toExpr Method.values.name = .ok e)
      columns values ∧ checkTypes .values columns values = .ok () := by
  unfold rowValues at h
  dsimp only at h
  split at h
  · cases h
  · obtain ⟨es, hes, h⟩ := bind_eq_ok_iff.mp h
    obtain ⟨u, hu, h⟩ := bind_eq_ok_iff.mp h
    cases h
    exact ⟨List.forall₂_map_left_iff.mp (mapM_eq_ok_iff_forall₂.mp hes), hu⟩

theorem rowValues_eq_ok {columns : List Column} {row : Catalog Operand} {values : List Expr}
    (h : rowValues columns row = .ok values) : values.length = columns.length ∧
      ∀ e ∈ values, ∃ n, ((row.get? n).getD (.value .null)).toExpr Method.values.name = .ok e := by
  obtain ⟨hvalues, -⟩ := rowValues_eq_ok_forall₂ h
  refine ⟨hvalues.length_eq.symm, fun e he => ?_⟩
  obtain ⟨c, -, hc⟩ := exists_of_mem_forall₂ hvalues he
  exact ⟨c.name, hc⟩

/-- The columns of an insert stay as they are, or else are those that the first row names. -/
theorem columnsOf_eq_ok {t : Table} {first : Catalog Operand} {columns : List Column}
    (h : q.columnsOf t first = .ok columns) : (q.insertColumns ≠ [] ∧ columns = q.insertColumns) ∨
      (q.insertColumns = [] ∧
        List.Forall₂ (fun n c => t.column n = .ok c) first.names columns) := by
  unfold columnsOf at h
  split at h
  · next hempty => exact .inr ⟨List.isEmpty_iff.mp hempty, mapM_eq_ok_iff_forall₂.mp h⟩
  · next hne =>
    cases h
    exact .inl ⟨fun h => hne (List.isEmpty_iff.mpr h), rfl⟩

theorem insertRows_eq_ok_columnsOf {rows : List (Catalog Operand)} (h : q.insertRows rows = .ok r) :
    q.command.admits .values = true ∧ ∃ t first rest columns built, q.table = some t ∧
      rows = first :: rest ∧ q.columnsOf t first = .ok columns ∧ columns ≠ [] ∧
      List.Forall₂ (fun row values => rowValues columns row = .ok values) rows built ∧
      r = { q with insertColumns := columns, rows := q.rows ++ built } := by
  obtain ⟨u, hu, h⟩ := bind_eq_ok_iff.mp h
  obtain ⟨t, ht, h⟩ := bind_eq_ok_iff.mp h
  split at h
  · cases h
  · obtain ⟨columns, hcolumns, h⟩ := bind_eq_ok_iff.mp h
    dsimp only at h
    split at h
    · cases h
    · next hne =>
      obtain ⟨built, hbuilt, h⟩ := bind_eq_ok_iff.mp h
      cases h
      exact ⟨Command.require_eq_ok hu, t, _, _, columns, built, requireTable_eq_ok ht,
        rfl, hcolumns,
        fun h => hne (List.isEmpty_iff.mpr h), mapM_eq_ok_iff_forall₂.mp hbuilt, rfl⟩

theorem insertRows_eq_ok {rows : List (Catalog Operand)} (h : q.insertRows rows = .ok r) :
    q.command.admits .values = true ∧ ∃ columns built, columns ≠ [] ∧ built ≠ [] ∧
      rows.mapM (rowValues columns) = .ok built ∧
      r = { q with insertColumns := columns, rows := q.rows ++ built } := by
  obtain ⟨hadmits, t, first, rest, columns, built, -, rfl, -, hne, hbuilt, rfl⟩ :=
    insertRows_eq_ok_columnsOf h
  refine ⟨hadmits, columns, built, hne, ?_, mapM_eq_ok_iff_forall₂.mpr hbuilt, rfl⟩
  rintro rfl
  cases hbuilt

/-- Each pair makes an assignment, and the values are checked against the columns. -/
theorem addAssignments_eq_ok_forall₂ {pairs : List (Column × Operand)}
    (h : q.addAssignments pairs = .ok r) : pairs ≠ [] ∧ ∃ added,
      List.Forall₂ (fun p a => a.column = p.1 ∧
        p.2.toExpr Method.set.name = .ok a.value) pairs added ∧
      checkTypes .set (added.map Assignment.column) (added.map Assignment.value) = .ok () ∧
      r = { q with assignments := q.assignments ++ added } := by
  unfold addAssignments at h
  dsimp only at h
  split at h
  · cases h
  · next hpairs =>
    obtain ⟨added, hadded, h⟩ := bind_eq_ok_iff.mp h
    obtain ⟨u, hu, h⟩ := bind_eq_ok_iff.mp h
    cases h
    refine ⟨fun h => hpairs (List.isEmpty_iff.mpr h), added, ?_, hu, rfl⟩
    refine (mapM_eq_ok_iff_forall₂.mp hadded).imp fun p a ha => ?_
    obtain ⟨e, he, ha⟩ := bind_eq_ok_iff.mp ha
    cases ha
    exact ⟨rfl, he⟩

theorem addAssignments_eq_ok {pairs : List (Column × Operand)}
    (h : q.addAssignments pairs = .ok r) :
    ∃ added, added ≠ [] ∧
      (∀ a ∈ added, ∃ p ∈ pairs, a.column = p.1 ∧ p.2.toExpr Method.set.name = .ok a.value) ∧
      r = { q with assignments := q.assignments ++ added } := by
  obtain ⟨hpairs, added, hadded, -, rfl⟩ := addAssignments_eq_ok_forall₂ h
  refine ⟨added, ?_, fun a ha => exists_of_mem_forall₂ hadded ha, rfl⟩
  rintro rfl
  exact hpairs (List.forall₂_nil_right_iff.mp hadded)

theorem assign_eq_ok_addAssignments {record : Catalog Operand} (h : q.assign record = .ok r) :
    q.command.admits .set = true ∧ ∃ t pairs, q.table = some t ∧
      List.Forall₂ (fun e p => t.column e.1 = .ok p.1 ∧ p.2 = e.2) record.entries pairs ∧
      q.addAssignments pairs = .ok r := by
  obtain ⟨u, hu, h⟩ := bind_eq_ok_iff.mp h
  obtain ⟨t, ht, h⟩ := bind_eq_ok_iff.mp h
  obtain ⟨pairs, hpairs, h⟩ := bind_eq_ok_iff.mp h
  refine ⟨Command.require_eq_ok hu, t, pairs, requireTable_eq_ok ht, ?_, h⟩
  refine (mapM_eq_ok_iff_forall₂.mp hpairs).imp fun e p hp => ?_
  obtain ⟨c, hc, hp⟩ := bind_eq_ok_iff.mp hp
  cases hp
  exact ⟨hc, rfl⟩

theorem assign_eq_ok {record : Catalog Operand} (h : q.assign record = .ok r) :
    q.command.admits .set = true ∧ ∃ added, added ≠ [] ∧
      (∀ a ∈ added, ∃ e ∈ record.entries, e.2.toExpr Method.set.name = .ok a.value) ∧
      r = { q with assignments := q.assignments ++ added } := by
  obtain ⟨hadmits, t, pairs, -, hpairs, h⟩ := assign_eq_ok_addAssignments h
  obtain ⟨added, hne, hadded, hr⟩ := addAssignments_eq_ok h
  refine ⟨hadmits, added, hne, fun a ha => ?_, hr⟩
  obtain ⟨p, hp, -, hvalue⟩ := hadded a ha
  obtain ⟨e, he, -, hpair⟩ := exists_of_mem_forall₂ hpairs hp
  exact ⟨e, he, hpair ▸ hvalue⟩

theorem assignColumn_eq_ok_addAssignments {c : Column} {o : Operand}
    (h : q.assignColumn c o = .ok r) :
    q.command.admits .set = true ∧ ∃ t d, q.table = some t ∧ c.table = t ∧ t.column c.name = .ok d ∧
      c.same d = true ∧ q.addAssignments [(c, o)] = .ok r := by
  obtain ⟨u, hu, h⟩ := bind_eq_ok_iff.mp h
  obtain ⟨t, ht, h⟩ := bind_eq_ok_iff.mp h
  dsimp only at h
  split at h
  · cases h
  · next htable =>
    obtain ⟨d, hd, h⟩ := bind_eq_ok_iff.mp h
    split at h
    · next hsame =>
      exact ⟨Command.require_eq_ok hu, t, d, requireTable_eq_ok ht,
        Classical.not_not.mp htable, hd, hsame, h⟩
    · cases h

theorem assignColumn_eq_ok {c : Column} {o : Operand} (h : q.assignColumn c o = .ok r) :
    q.command.admits .set = true ∧ ∃ e, o.toExpr Method.set.name = .ok e ∧
      r = { q with assignments := q.assignments ++ [⟨c, e⟩] } := by
  obtain ⟨hadmits, t, d, -, -, -, -, h⟩ := assignColumn_eq_ok_addAssignments h
  obtain ⟨-, added, hadded, -, rfl⟩ := addAssignments_eq_ok_forall₂ h
  cases hadded with
  | @cons _ a _ _ ha hnil =>
    cases hnil
    obtain ⟨column, value⟩ := a
    obtain ⟨rfl, he⟩ := ha
    exact ⟨hadmits, value, he, rfl⟩

end Query

end SqlDraft
