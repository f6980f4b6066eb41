import SqlDraft.Proofs.Drafting.Action

/-! What an action reads. What it makes of its field, or that it is refused, hangs on the command
and the field alone, and for rows and assignments on the target (`Query.Action.map_field_congr`).
Next to another value of any other field an action goes as before
(`Query.Action.apply_withField`). -/

namespace SqlDraft.Query

open Sql

variable {q q' r : Query} {f : Field}

/-! ## Two drafts for one command -/

theorem requireTable_congr {m : Method} {k : Command} (htable : q'.table = q.table) :
    q'.requireTable m k = q.requireTable m k := by
  rw [requireTable, requireTable, htable]

theorem changeLastJoin_congr {m : Method} {change : Join → Outcome Join} {k : Command}
    (hjoins : q'.joins = q.joins) :
    (q'.changeLastJoin m change k).map joins = (q.changeLastJoin m change k).map joins := by
  unfold changeLastJoin
  rw [hjoins]
  split
  · rfl
  · split
    · rfl
    · rw [Sql.map_map, Sql.map_map]

theorem addAssignments_congr {pairs : List (Column × Operand)}
    (h : q'.assignments = q.assignments) :
    (q'.addAssignments pairs).map assignments = (q.addAssignments pairs).map assignments := by
  unfold addAssignments
  split
  · rfl
  · simp only [Sql.map_bind, Sql.map_pure, h]

/-! ## What each method makes of its field -/

section Congr

variable (h : q'.command = q.command)
include h

theorem target_congr {t : Table} : (q'.target t).map table = (q.target t).map table := by
  simp only [target, h, Sql.map_bind, Sql.map_pure]

theorem groupBy_congr {es : List Expr} (hgrouping : q'.grouping = q.grouping) :
    (q'.groupBy es).map grouping = (q.groupBy es).map grouping := by
  simp only [groupBy, h, hgrouping, Sql.map_bind, Sql.map_pure]

theorem orderBy_congr {es : List Expr} (hordering : q'.ordering = q.ordering) :
    (q'.orderBy es).map ordering = (q.orderBy es).map ordering := by
  simp only [orderBy, h, hordering, Sql.map_bind, Sql.map_pure]

theorem fetch_congr {n : Float} : (q'.fetch n).map limit = (q.fetch n).map limit := by
  simp only [fetch, h, Sql.map_bind, Sql.map_pure]

theorem skip_congr {n : Float} : (q'.skip n).map offset = (q.skip n).map offset := by
  simp only [skip, h, Sql.map_bind, Sql.map_pure]

theorem distinct_congr : q'.distinct.map isDistinct = q.distinct.map isDistinct := by
  simp only [distinct, h, Sql.map_bind, Sql.map_pure]

theorem onlyIfExists_congr : q'.onlyIfExists.map ifExists = q.onlyIfExists.map ifExists := by
  simp only [onlyIfExists, h, Sql.map_bind, Sql.map_pure]

theorem onlyIfMissing_congr :
    q'.onlyIfMissing.map ifNotExists = q.onlyIfMissing.map ifNotExists := by
  simp only [onlyIfMissing, h, Sql.map_bind, Sql.map_pure]

theorem join_congr {kind : JoinKind} {t : Table} {build : Option (Query → Outcome Query)}
    (hjoins : q'.joins = q.joins) :
    (q'.join kind t build).map joins = (q.join kind t build).map joins := by
  cases build with
  | none => simp only [join, h, hjoins, Sql.map_bind, Sql.map_pure]
  | some build =>
    simp only [join, h, hjoins, Sql.map_bind]
    refine bind_congr fun _ => bind_congr fun result => ?_
    split <;> rfl

theorem share_congr {columns : List String} (hjoins : q'.joins = q.joins) :
    (q'.share columns).map joins = (q.share columns).map joins := by
  simp only [share, h, Sql.map_bind]
  refine bind_congr fun _ => ?_
  split
  · rfl
  · exact changeLastJoin_congr hjoins

theorem insertRows_congr {rows : List (Catalog Operand)} (htable : q'.table = q.table)
    (hcolumns : q'.insertColumns = q.insertColumns) (hrows : q'.rows = q.rows) :
    (q'.insertRows rows).map (fun r => (r.insertColumns, r.rows)) =
      (q.insertRows rows).map fun r => (r.insertColumns, r.rows) := by
  simp only [insertRows, h, requireTable_congr htable, Sql.map_bind]
  refine bind_congr fun _ => bind_congr fun t => ?_
  cases rows with
  | nil => rfl
  | cons row rows =>
    simp only [columnsOf, hcolumns, hrows, Sql.map_bind]
    refine bind_congr fun columns => ?_
    split
    · rfl
    · simp only [Sql.map_bind, Sql.map_pure]

theorem assign_congr {record : Catalog Operand} (htable : q'.table = q.table)
    (hassignments : q'.assignments = q.assignments) :
    (q'.assign record).map assignments = (q.assign record).map assignments := by
  simp only [assign, h, requireTable_congr htable, Sql.map_bind]
  exact bind_congr fun _ => bind_congr fun t => bind_congr fun pairs =>
    addAssignments_congr hassignments

theorem assignColumn_congr {c : Column} {o : Operand} (htable : q'.table = q.table)
    (hassignments : q'.assignments = q.assignments) :
    (q'.assignColumn c o).map assignments = (q.assignColumn c o).map assignments := by
  simp only [assignColumn, h, requireTable_congr htable, Sql.map_bind]
  refine bind_congr fun _ => bind_congr fun t => ?_
  split
  · rfl
  · simp only [Sql.map_bind]
    refine bind_congr fun d => ?_
    split
    · exact addAssignments_congr hassignments
    · rfl

theorem restrict_congr {K : Clause} {link : Link} {c : Criterion}
    (hf : q.command.field (.condition K link) = f) (hfield : q'.field f = q.field f) :
    (q'.restrict K link c).map (·.field f) = (q.restrict K link c).map (·.field f) := by
  simp only [restrict, h, Sql.map_bind]
  cases hu : q.command.require (.condition K link) with
  | error e => rfl
  | ok u =>
    refine bind_congr fun _ => bind_congr fun added => ?_
    have combined {old old' : Option Cond} (hold : old' = old) :
        (.ok (some (.combine old' link.joiner added)) : Outcome (Option Cond)) =
          .ok (some (.combine old link.joiner added)) := by rw [hold]
    -- a condition that the draft does not keep elsewhere is one of its rows
    have filtered (hK : K = .filter ∨ q.command.holds K = false) :
        (.ok (Query.field { q' with filter := some (.combine q'.filter link.joiner added) } f) :
          Outcome f.Value) =
          .ok (Query.field { q with filter := some (.combine q.filter link.joiner added) } f) := by
      rw [field_condition_of_admits (Command.require_eq_ok hu) hK] at hf
      subst hf
      exact combined hfield
    cases K with
    | filter => exact filtered (.inl rfl)
    | having =>
      cases hholds : q.command.holds .having with
      | true =>
        rw [field_having_of_holds link hholds] at hf
        subst hf
        exact combined hfield
      | false => exact filtered (.inr hholds)
    | pairing =>
      cases hholds : q.command.holds .pairing with
      | true =>
        rw [field_pairing_of_holds link hholds] at hf
        subst hf
        exact changeLastJoin_congr hfield
      | false => exact filtered (.inr hholds)

end Congr

/-- What an action makes of its field hangs on the command, the field, and for rows and assignments
the target. -/
theorem Action.map_field_congr {a : Action} (hf : q.command.field a.method = f)
    (h : q'.command = q.command)
    (htable : a.method = .values ∨ a.method = .set → q'.table = q.table)
    (hfield : q'.field f = q.field f) :
    (a.apply q').map (·.field f) = (a.apply q).map (·.field f) := by
  cases a with
  | restrict => exact restrict_congr h hf hfield
  | target => subst hf; exact target_congr h
  | join => subst hf; exact join_congr h hfield
  | share => subst hf; exact share_congr h hfield
  | groupBy => subst hf; exact groupBy_congr h hfield
  | orderBy => subst hf; exact orderBy_congr h hfield
  | fetch => subst hf; exact fetch_congr h
  | skip => subst hf; exact skip_congr h
  | distinct => subst hf; exact distinct_congr h
  | values =>
    subst hf
    exact insertRows_congr h (htable (.inl rfl)) (congrArg Prod.fst hfield)
      (congrArg Prod.snd hfield)
  | assign => subst hf; exact assign_congr h (htable (.inr rfl)) hfield
  | assignColumn => subst hf; exact assignColumn_congr h (htable (.inr rfl)) hfield
  | onlyIfExists => subst hf; exact onlyIfExists_congr h
  | onlyIfMissing => subst hf; exact onlyIfMissing_congr h

/-- Next to another value of a field that it does not read an action goes as before. -/
theorem Action.apply_withField {a : Action} (ha : a.apply q = .ok r)
    (hne : q.command.field a.method ≠ f)
    (htable : a.method = .values ∨ a.method = .set → f ≠ .table) (v : f.Value) :
    a.apply (q.withField f v) = .ok (r.withField f v) := by
  obtain ⟨f', w, hf', rfl⟩ := (edited ha).2.exists_withField
  have hmap : (a.apply (q.withField f v)).map (·.field f') = .ok w := by
    rw [map_field_congr hf' (command_withField v) (fun h => field_withField_of_ne (htable h) v)
      (field_withField_of_ne (hf' ▸ hne.symm) v), ha]
    exact congrArg Except.ok (field_withField_self w)
  obtain ⟨r', hr', hfield⟩ := map_eq_ok_iff.mp hmap
  obtain ⟨f'', w', hf'', rfl⟩ := (edited hr').2.exists_withField
  obtain rfl : f' = f'' := by rw [← hf', ← hf'', command_withField]
  rw [hr', withField_comm (hf' ▸ hne) w v, ← hfield, field_withField_self]

end SqlDraft.Query
