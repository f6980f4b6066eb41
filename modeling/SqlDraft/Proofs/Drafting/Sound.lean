import SqlDraft.Proofs.Drafting.Method
import SqlDraft.Proofs.Drafting.Reached

/-! What every query keeps to, whatever operands the calls that drafted it were given
(`Query.Drafted.sound`). A clause that is not empty is one that the statement writes, a row of
values comes with columns, and a join has a condition or shared columns, a cross join neither. -/

namespace SqlDraft

open Sql

/-- A join has either a condition or shared columns, and a cross join neither. -/
structure Join.Sound (j : Join) : Prop where
  cross : j.kind = .cross → j.condition = none ∧ j.shared = none
  either : j.condition ≠ none → j.shared = none
  shared : j.shared ≠ some []

theorem Join.sound_plain (kind : JoinKind) (t : Table) : ({ kind, table := t } : Join).Sound :=
  ⟨fun _ => ⟨rfl, rfl⟩, fun _ => rfl, nofun⟩

namespace Query

/-- Every clause that is not empty is one of the statement, or of the scope. -/
structure Sound (q : Query) : Prop where
  projection : q.projection ≠ [] → q.command = .statement .select
  joins : q.joins ≠ [] → q.command.admits .shared = true
  filter : q.filter ≠ none → q.command.admits (.condition .filter .plain) = true
  grouping : q.grouping ≠ [] → q.command.admits .groupBy = true
  having : q.having ≠ none → q.command = .statement .select
  ordering : q.ordering ≠ [] → q.command.admits .orderBy = true
  rows : q.rows ≠ [] → q.command.admits .values = true ∧ q.insertColumns ≠ []
  assignments : q.assignments ≠ [] → q.command.admits .set = true
  join : ∀ j ∈ q.joins, j.Sound

variable {A : Operand → Prop} {N : Listed → Prop} {q r : Query}

/-- A method that only one statement admits tells which statement it is. -/
theorem statement_eq_of_admits {c k : Statement} {m : Method} (hc : q.command = .statement c)
    (hadmits : q.command.admits m = true)
    (hm : Statement.all.all (fun d => !(Command.statement d).admits m || d == k) = true) :
      c = k := by
  have hor := List.all_eq_true.mp hm c (Statement.mem_all c)
  rw [← hc, hadmits] at hor
  simpa using hor

/-- Conditions that are kept with those of rows are of a command that has such. -/
theorem admits_filter {K : Clause} {link : Link} (h : q.command.admits (.condition K link) = true)
    (hK : K = .filter ∨ q.command.holds K = false) :
    q.command.admits (.condition .filter .plain) = true := by
  unfold Command.holds at hK
  generalize q.command = c at h hK ⊢
  rcases c with s | L | -
  · cases s <;> cases K <;> first | rfl | cases h
  · cases L <;> rfl
  · cases K <;> first | exact absurd hK (by decide) | cases h

theorem admits_shared {kind : JoinKind} (h : q.command.admits (.join kind) = true) :
    q.command.admits .shared = true := by
  generalize q.command = c at h
  rcases c with s | L | -
  · cases s <;> first | rfl | cases h
  · cases L <;> cases h
  · cases h

theorem sound_of_empty {c : Command} {t : Option Table} :
    ({ command := c, table := t } : Query).Sound := by
  constructor <;> first | exact fun h => absurd rfl h | exact List.forall_mem_nil _

theorem Started.sound (h : q.Started N) : q.Sound := by
  cases h with
  | select _ h =>
    obtain ⟨items, -, h⟩ := bind_eq_ok_iff.mp h
    cases h
    exact { (sound_of_empty : (ofStatement .select).Sound) with projection := fun _ => rfl }
  | joining kind t =>
    exact { (sound_of_empty : Sound { command := .scope .join, table := some t }) with
      joins := fun _ => rfl
      join := List.forall_mem_singleton.mpr (Join.sound_plain kind t) }
  | _ => exact sound_of_empty

namespace Sound

/-- The last join is changed to one that is sound. -/
theorem lastJoin {front : List Join} {last j : Join} (hq : q.Sound)
    (hjoins : q.joins = front ++ [last])
    (hj : last.Sound → j.Sound) : ({ q with joins := front ++ [j] } : Query).Sound := by
  have hall := hq.join
  rw [hjoins, List.forall_mem_append, List.forall_mem_singleton] at hall
  exact { hq with
    joins := fun _ => hq.joins (by simp [hjoins])
    join := List.forall_mem_append.mpr ⟨hall.1, List.forall_mem_singleton.mpr (hj hall.2)⟩ }

/-- A join that is added is sound. -/
theorem joined {kind : JoinKind} {j : Join} (hq : q.Sound)
    (hadmits : q.command.admits (.join kind) = true)
    (hj : j.Sound) : ({ q with joins := q.joins ++ [j] } : Query).Sound :=
  { hq with
    joins := fun _ => admits_shared hadmits
    join := List.forall_mem_append.mpr ⟨hq.join, List.forall_mem_singleton.mpr hj⟩ }

/-- Conditions are added where the command has a clause for them. -/
theorem restricts {K : Clause} {link : Link} {added : Cond} (hq : q.Sound)
    (hadmits : q.command.admits (.condition K link) = true)
    (hr : q.Restricts K link.joiner added r) :
    r.Sound := by
  cases hr with
  | having _ hholds =>
    have hcommand : q.command = .statement .select := by simpa [Command.holds] using hholds
    exact { hq with having := fun _ => hcommand }
  | pairing _ _ hjoins hkind hshared =>
    exact hq.lastJoin hjoins fun hlast =>
      ⟨fun hcross => absurd hcross hkind, fun _ => hshared, hlast.shared⟩
  | filter hK => exact { hq with filter := fun _ => admits_filter hadmits hK }

theorem share {columns : List String} (hq : q.Sound) (h : q.share columns = .ok r) : r.Sound := by
  obtain ⟨-, hcolumns, front, last, hjoins, hkind, hcondition, rfl⟩ := share_eq_ok h
  refine hq.lastJoin hjoins fun _ =>
    ⟨fun hcross => absurd hcross hkind, fun h => absurd hcondition h, fun hnil => ?_⟩
  exact hcolumns (List.append_eq_nil_iff.mp (Option.some.inj hnil)).2

end Sound

/-- Every method keeps a query sound, if what drafts hand back is sound. -/
theorem Called.sound {m : Method} (hq : q.Sound) (h : Called A Sound m q r) : r.Sound := by
  cases h with
  | target h => obtain ⟨-, rfl⟩ := target_eq_ok h; exact { hq with }
  | restrict _ h =>
    obtain ⟨hadmits, added, -, hr⟩ := restrict_eq_ok h
    exact hq.restricts hadmits hr
  | @join _ _ kind t h =>
    obtain ⟨hadmits, rfl⟩ := join_none_eq_ok h
    exact hq.joined hadmits (Join.sound_plain kind t)
  | joinDraft hbuild hresult h =>
    obtain ⟨hadmits, result, j, rest, hok, -, hjoins, rfl⟩ := join_some_eq_ok h
    obtain rfl := Except.ok.inj (hbuild.symm.trans hok)
    exact hq.joined hadmits (hresult.join j (hjoins ▸ List.mem_cons_self))
  | share h => exact hq.share h
  | groupBy _ h =>
    obtain ⟨hadmits, -, rfl⟩ := groupBy_eq_ok h
    exact { hq with grouping := fun _ => hadmits }
  | orderBy _ h =>
    obtain ⟨hadmits, nodes, -, rfl⟩ := orderBy_eq_ok h
    exact { hq with ordering := fun _ => hadmits }
  | fetch h => obtain ⟨-, -, rfl⟩ := fetch_eq_ok h; exact { hq with }
  | skip h => obtain ⟨-, -, rfl⟩ := skip_eq_ok h; exact { hq with }
  | distinct h => obtain ⟨-, rfl⟩ := distinct_eq_ok h; exact { hq with }
  | values _ h =>
    obtain ⟨hadmits, columns, built, hcolumns, -, -, rfl⟩ := insertRows_eq_ok h
    exact { hq with rows := fun _ => ⟨hadmits, hcolumns⟩ }
  | assign _ h =>
    obtain ⟨hadmits, added, -, -, rfl⟩ := assign_eq_ok h
    exact { hq with assignments := fun _ => hadmits }
  | assignColumn _ h =>
    obtain ⟨hadmits, e, -, rfl⟩ := assignColumn_eq_ok h
    exact { hq with assignments := fun _ => hadmits }
  | ifExists h => obtain ⟨-, rfl⟩ := onlyIfExists_eq_ok h; exact { hq with }
  | ifNotExists h => obtain ⟨-, rfl⟩ := onlyIfMissing_eq_ok h; exact { hq with }

theorem Drafted.sound (h : q.Drafted A N) : q.Sound :=
  h.induction (fun _ h => h.sound) fun _ _ _ hq h => h.sound hq

end Query

end SqlDraft
