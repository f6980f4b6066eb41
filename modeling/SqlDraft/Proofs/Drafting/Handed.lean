import SqlDraft.Proofs.Drafting.Action

/-! The join that a call adds. A draft is handed the join to be finished; of what it hands back only
the command is looked at, and the first join is added, wherever it was begun. So the join that was
asked for is added by a draft that does no more than call methods of what it was handed, and by one
that hands back a join begun elsewhere just when that is of the same kind and table
(`Query.join_gains_iff`). -/

namespace SqlDraft.Query

open Sql

variable {q r result : Query} {kind : JoinKind} {t : Table} {build : Query → Outcome Query}

/-- The second query has the joins of the first and one more behind them, of the kind and table. -/
def Gains (q : Query) (kind : JoinKind) (t : Table) (r : Query) : Prop :=
  ∃ j, r.joins = q.joins ++ [j] ∧ j.kind = kind ∧ j.table = t

theorem gains_iff {j : Join} (h : r.joins = q.joins ++ [j]) :
    q.Gains kind t r ↔ j.kind = kind ∧ j.table = t := by
  constructor
  · rintro ⟨j', hj', hkind, htable⟩
    obtain rfl := List.singleton_inj.mp (List.append_cancel_left (h.symm.trans hj'))
    exact ⟨hkind, htable⟩
  · exact fun hj => ⟨j, h, hj⟩

/-! ## What is made of a join that is handed on -/

/-- One join is drafted, of the kind and table. -/
structure Drafts (q : Query) (kind : JoinKind) (t : Table) : Prop where
  command : q.command = .scope .join
  joins : ∃ j, q.joins = [j] ∧ j.kind = kind ∧ j.table = t

theorem drafts_joining (kind : JoinKind) (t : Table) :
    (joining { kind, table := t }).Drafts kind t :=
  ⟨rfl, _, rfl, rfl, rfl⟩

/-- The draft of a join has methods for its condition and its shared columns, and these keep its
kind and table. -/
theorem Drafts.apply {a : Action} (hq : q.Drafts kind t) (h : a.apply q = .ok r) :
    r.Drafts kind t := by
  obtain ⟨hcommand, j, hjoins, hkind, htable⟩ := hq
  refine ⟨(Action.command_apply h).trans hcommand, ?_⟩
  obtain ⟨hadmits, hedited⟩ := Action.edited h
  rw [hcommand] at hadmits
  have hlast {front : List Join} {last : Join} (hsplit : q.joins = front ++ [last]) :
      front = [] ∧ last = j := by
    rcases List.append_eq_singleton_iff.mp (hsplit.symm.trans hjoins) with ⟨hfront, hj⟩ | ⟨-, hnil⟩
    · exact ⟨hfront, List.singleton_inj.mp hj⟩
    · cases hnil
  generalize hm : a.method = m at hadmits hedited
  cases hedited with
  | field hf hne v =>
    -- both methods of the draft write its joins
    rw [hcommand] at hf
    cases m with
    | condition K link => cases K <;> first | exact absurd hf.symm hne | cases hadmits
    | shared => exact absurd hf.symm hne
    | _ => cases hadmits
  | join => cases hadmits
  | pairing c _ hsplit =>
    obtain ⟨rfl, rfl⟩ := hlast hsplit
    exact ⟨_, rfl, hkind, htable⟩
  | shared columns hsplit =>
    obtain ⟨rfl, rfl⟩ := hlast hsplit
    exact ⟨_, rfl, hkind, htable⟩

theorem Drafts.run {l : List Action} (hq : q.Drafts kind t) (h : Action.run l q = .ok r) :
    r.Drafts kind t := by
  induction l generalizing q with
  | nil => cases h; exact hq
  | cons a l ih =>
    obtain ⟨s, hs, h⟩ := bind_eq_ok_iff.mp h
    exact ih (hq.apply hs) h

/-! ## The join that is added -/

/-- What is handed back is taken when it drafts a join, and its first join is added. -/
theorem join_some_eq_ok_iff (hbuild : build (.joining { kind, table := t }) = .ok result) :
    q.join kind t (some build) = .ok r ↔
      q.command.admits (.join kind) = true ∧ result.command = .scope .join ∧
      ∃ j rest, result.joins = j :: rest ∧ r = { q with joins := q.joins ++ [j] } := by
  constructor
  · intro h
    obtain ⟨hadmits, result', j, rest, hresult, hcommand, hjoins, rfl⟩ := join_some_eq_ok h
    obtain rfl := Except.ok.inj (hbuild.symm.trans hresult)
    exact ⟨hadmits, hcommand, j, rest, hjoins, rfl⟩
  · rintro ⟨hadmits, hcommand, j, rest, hjoins, rfl⟩
    have hrequire : q.command.require (.join kind) = .ok () := if_pos hadmits
    simp only [join, hrequire, hbuild, bind, Except.bind, hcommand, hjoins]
    rfl

/-- Whatever was made of a join that a draft was handed is taken, and keeps the kind and table it
was begun with. -/
theorem exists_join_of_run {kind' : JoinKind} {t' : Table} {l : List Action}
    (hbuild : build (.joining { kind, table := t }) = .ok result)
    (hrun : Action.run l (.joining { kind := kind', table := t' }) = .ok result)
    (hadmits : q.command.admits (.join kind) = true) :
    ∃ r, q.join kind t (some build) = .ok r ∧ q.Gains kind' t' r ∧
      (q.Gains kind t r ↔ kind' = kind ∧ t' = t) := by
  obtain ⟨hcommand, j, hjoins, hkind, htable⟩ := (drafts_joining kind' t').run hrun
  refine ⟨_, (join_some_eq_ok_iff hbuild).mpr ⟨hadmits, hcommand, j, [], hjoins, rfl⟩,
    ⟨j, rfl, hkind, htable⟩, ?_⟩
  rw [gains_iff rfl, hkind, htable]

/-- The join that a call adds. Without a draft it is the one asked for. With a draft it is the first
join of what is handed back, and so the one asked for just when that has its kind and table: this is
so of all that is made by methods of what was handed to the draft, and what was begun for another
kind or table is taken as well. -/
theorem join_gains_iff (q : Query) (kind : JoinKind) (t : Table) :
    (∀ r, q.join kind t = .ok r → q.Gains kind t r) ∧
      ∀ (build : Query → Outcome Query) (result : Query),
        build (.joining { kind, table := t }) = .ok result →
        (∀ r, q.join kind t (some build) = .ok r → ∃ j rest, result.joins = j :: rest ∧
          r = { q with joins := q.joins ++ [j] } ∧
          (q.Gains kind t r ↔ j.kind = kind ∧ j.table = t)) ∧
        ∀ (kind' : JoinKind) (t' : Table) (l : List Action),
          Action.run l (.joining { kind := kind', table := t' }) = .ok result →
            q.command.admits (.join kind) = true → ∃ r, q.join kind t (some build) = .ok r ∧
            q.Gains kind' t' r ∧
              (q.Gains kind t r ↔ kind' = kind ∧ t' = t) := by
  refine ⟨fun r h => ?_, fun build result hbuild =>
    ⟨fun r h => ?_, fun _ _ _ => exists_join_of_run hbuild⟩⟩
  · obtain ⟨-, rfl⟩ := join_none_eq_ok h
    exact ⟨_, rfl, rfl, rfl⟩
  · obtain ⟨-, -, j, rest, hjoins, rfl⟩ := (join_some_eq_ok_iff hbuild).mp h
    exact ⟨j, rest, hjoins, rfl, gains_iff rfl⟩

/-- A left join that is drafted with a shared column is the one asked for. -/
theorem join_gains_iff_owners :
    let pets : Table := { serial := 0, name := "pets" }
    let owners : Table := { serial := 1, name := "owners" }
    let q : Query := { command := .statement .select, table := some pets }
    let plain : Query := .joining { kind := .left, table := owners }
    let finished : Query :=
      { plain with joins := [{ kind := .left, table := owners, shared := some ["owner"] }] }
    Action.run [.share ["owner"]] plain = .ok finished ∧ q.command.admits (.join .left) = true ∧
      ∃ r, q.join .left owners (some fun draft => draft.share ["owner"]) = .ok r ∧
        q.Gains .left owners r := by
  intro pets owners q plain finished
  have hrun : Action.run [.share ["owner"]] plain = .ok finished := rfl
  obtain ⟨-, hdrafts⟩ := join_gains_iff q .left owners
  obtain ⟨-, hmade⟩ := hdrafts (fun draft => draft.share ["owner"]) finished rfl
  obtain ⟨r, hr, hgains, -⟩ := hmade .left owners _ hrun rfl
  exact ⟨hrun, rfl, r, hr, hgains⟩

/-- A draft that hands back the left join of another table has that one joined in place of the inner
join of vets. -/
theorem join_gains_not :
    let pets : Table := { serial := 0, name := "pets" }
    let owners : Table := { serial := 1, name := "owners" }
    let vets : Table := { serial := 2, name := "vets" }
    let q : Query := { command := .statement .select, table := some pets }
    let j : Join := { kind := .left, table := owners, shared := some ["owner"] }
    let foreign : Query := { joining { kind := .left, table := owners } with joins := [j] }
    q.Reached ∧ foreign.Reached ∧
      q.join .inner vets (some fun _ => .ok foreign) = .ok { q with joins := [j] } ∧
      ¬ q.Gains .inner vets { q with joins := [j] } := by
  intro pets owners vets q j foreign
  have hselect : (ofStatement .select).Reached := .started (@Started.select _ [] _ nofun rfl)
  have htarget : (ofStatement .select).target pets = .ok q := rfl
  have hq : q.Reached := .called hselect (.target htarget)
  have hshared : (joining { kind := .left, table := owners }).share ["owner"] = .ok foreign := rfl
  have hforeign : foreign.Reached := .called (.started (.joining .left owners)) (.share hshared)
  refine ⟨hq, hforeign, rfl, fun h => ?_⟩
  have hadded : ({ q with joins := [j] } : Query).joins = q.joins ++ [j] := rfl
  cases ((gains_iff hadded).mp h).1

end SqlDraft.Query
