import SqlDraft.Proofs.Drafting.Sound

/-! The joins of a query. Each has a condition or shared columns and not both, and a cross join has
neither, whatever the calls that made the query; a call that would break this is refused, and tells
why (`Query.Reached.joins_sound_or_refused`). -/

namespace SqlDraft

open Sql

namespace Query

variable {q : Query}

/-! ## Refusals -/

/-- Why the last join cannot be given a condition, or shared columns, when it may have the other
already. -/
inductive Unpaired (q : Query) (other : Join → Bool) : OperationIssue → Prop
  | noJoin (h : q.joins = []) : Unpaired q other .noJoin
  | crossJoin {front : List Join} {last : Join} (h : q.joins = front ++ [last])
      (hkind : last.kind = .cross) :
      Unpaired q other .crossJoin
  | onAndUsing {front : List Join} {last : Join} (h : q.joins = front ++ [last])
      (hkind : last.kind ≠ .cross) (hother : other last = true) : Unpaired q other .onAndUsing

/-- A change of the last join is refused just when there is none, or it is a cross join, or has the
other already. -/
theorem changeLastJoin_eq_error_iff {m : Method} {other : Join → Bool}
    (change : Join → Join) {f : Fault} :
    (q.changeLastJoin m fun j =>
      if other j then .error (.operation q.command.name m.name .onAndUsing)
        else .ok (change j)) = .error f ↔
      ∃ issue, q.Unpaired other issue ∧ f = .operation q.command.name m.name issue := by
  unfold changeLastJoin
  constructor
  · intro h
    split at h
    · next hlast =>
      cases h
      exact ⟨_, .noJoin (List.getLast?_eq_none_iff.mp hlast), rfl⟩
    · next last hlast =>
      obtain ⟨front, hjoins⟩ := List.getLast?_eq_some_iff.mp hlast
      split at h
      · next hkind =>
        cases h
        exact ⟨_, .crossJoin hjoins hkind, rfl⟩
      · next hkind =>
        dsimp only at h
        split at h
        · next hother =>
          cases h
          exact ⟨_, .onAndUsing hjoins hkind hother, rfl⟩
        · cases h
  · rintro ⟨issue, hunpaired, rfl⟩
    cases hunpaired with
    | noJoin hjoins => rw [hjoins]; rfl
    | crossJoin hjoins hkind => simp [hjoins, hkind]
    | onAndUsing hjoins hkind hother => simp [hjoins, hkind, hother, Except.map]

/-- A select, or a draft of a join, takes conditions and shared columns for its last join. -/
theorem admits_pairing (h : q.command = .statement .select ∨ q.command = .scope .join)
    (link : Link) :
    q.command.admits (.condition .pairing link) = true ∧ q.command.admits .shared = true ∧
      q.command.holds .pairing = true := by
  unfold Command.holds
  rcases h with h | h <;> rw [h] <;> exact ⟨rfl, rfl, rfl⟩

theorem require_of_admits {m : Method} (h : q.command.admits m = true) :
    q.command.require m = .ok () :=
  if_pos h

theorem restrict_pairing_eq_error_iff {link : Link} {a : Criterion} {added : Cond} {f : Fault}
    (h : q.command = .statement .select ∨ q.command = .scope .join)
    (ha : a.condition (.condition .pairing link) .pairing = .ok added) :
    q.restrict .pairing link a = .error f ↔ ∃ issue, q.Unpaired (fun j => j.shared.isSome) issue ∧
      f = .operation q.command.name (Method.condition .pairing link).name issue := by
  obtain ⟨hadmits, -, hholds⟩ := admits_pairing h link
  rw [← changeLastJoin_eq_error_iff fun j =>
    { j with condition := some (.combine j.condition link.joiner added) }]
  unfold restrict
  dsimp only
  rw [require_of_admits hadmits, ha, hholds]
  rfl

theorem share_eq_error_iff {columns : List String} {f : Fault}
    (h : q.command = .statement .select ∨ q.command = .scope .join) (hcolumns : columns ≠ []) :
    q.share columns = .error f ↔ ∃ issue, q.Unpaired (fun j => j.condition.isSome) issue ∧
      f = .operation q.command.name Method.shared.name issue := by
  obtain ⟨-, hadmits, -⟩ := admits_pairing h .plain
  rw [← changeLastJoin_eq_error_iff fun j =>
    { j with shared := some (j.shared.getD [] ++ columns) }]
  unfold share
  rw [require_of_admits hadmits, if_neg (by simpa using hcolumns)]
  rfl

/-- Joins stay sound over every run, and a call that would make one unsound is refused for that, and
no other is. -/
theorem Reached.joins_sound_or_refused (hq : q.Reached) : (∀ j ∈ q.joins, j.Sound) ∧
    (q.command = .statement .select ∨ q.command = .scope .join →
      (∀ (link : Link) (a : Criterion) (added : Cond) (f : Fault),
        a.condition (.condition .pairing link) .pairing = .ok added →
        (q.restrict .pairing link a = .error f ↔
          ∃ issue, q.Unpaired (fun j => j.shared.isSome) issue ∧
          f = .operation q.command.name (Method.condition .pairing link).name issue)) ∧
      ∀ (columns : List String) (f : Fault), columns ≠ [] →
        (q.share columns = .error f ↔ ∃ issue, q.Unpaired (fun j => j.condition.isSome) issue ∧
          f = .operation q.command.name Method.shared.name issue)) :=
  ⟨hq.sound.join, fun hcommand =>
    ⟨fun _ _ _ _ ha => restrict_pairing_eq_error_iff hcommand ha,
      fun _ _ hcolumns => share_eq_error_iff hcommand hcolumns⟩⟩

/-- The join that a draft gave shared columns takes no condition from without. -/
theorem Reached.joins_sound_or_refused_drafted :
    let pets : Table := { serial := 0, name := "pets" }
    let owners : Table := { serial := 1, name := "owners" }
    let q : Query :=
      { command := .statement .select
        table := some pets
        joins := [{ kind := .inner, table := owners, shared := some ["owner"] }] }
    q.Reached ∧ (∀ j ∈ q.joins, j.Sound) ∧
      q.restrict .pairing .either (.operand (.value (.truth true))) =
        .error (.operation "select" "orOn" .onAndUsing) := by
  intro pets owners q
  let build : Query → Outcome Query := fun draft => draft.share ["owner"]
  have hselect : (ofStatement .select).Reached := .started (@Started.select _ [] _ nofun rfl)
  have hshared : (joining { kind := .inner, table := owners }).share ["owner"] =
      .ok { joining { kind := .inner, table := owners } with joins := q.joins } := rfl
  have hjoined :
      Query.join { command := .statement .select, table := some pets } .inner owners (some build) =
        .ok q := rfl
  have hdraft : Query.Reached
      { joining { kind := .inner, table := owners } with joins := q.joins } :=
    .called (.started (.joining .inner owners)) (.share hshared)
  have htarget : (ofStatement .select).target pets =
      .ok { command := .statement .select, table := some pets } :=
    rfl
  have hq : q.Reached :=
    .called (.called hselect (.target htarget)) (.joinDraft hshared hdraft hjoined)
  obtain ⟨hsound, hrefused⟩ := hq.joins_sound_or_refused
  have hlast : q.joins = [] ++ [{ kind := .inner, table := owners, shared := some ["owner"] }] :=
    rfl
  exact ⟨hq, hsound, ((hrefused (.inl rfl)).1 .either _ _ _ rfl).mpr
    ⟨.onAndUsing, .onAndUsing hlast (by decide) rfl, rfl⟩⟩

end Query

end SqlDraft
