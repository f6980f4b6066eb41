import SqlDraft.Proofs.Drafting.Local
import SqlDraft.Sql.Compile

/-! The order in which clauses are given. Actions that write different fields may be swapped
(`Query.Action.apply_comm`), hence of two runs with the same actions for each field, in the same
order, both are refused or both end in one query (`Query.Action.run_rearranged`). In a select the
fields are its clauses, with the pairings and shared columns of joins among the joins. The scope of
a pairing or of groups keeps all its conditions in one field, and there the order of any two of them
counts. -/

namespace SqlDraft

open Sql

/-- No command has both a method that sets the target and one that reads it. -/
theorem Command.field_ne_table_of_admits {k : Command} {m m' : Method} (hm : k.admits m = true)
    (hm' : k.admits m' = true) (hreads : m' = .values ∨ m' = .set) : k.field m ≠ .table := by
  have htarget : m ≠ .target := by
    rintro rfl
    rcases k with c | K | -
    · rcases hreads with rfl | rfl <;> cases c <;> first | cases hm; done | cases hm'
    · cases K <;> cases hm
    · cases hm
  cases m with
  | target => exact absurd rfl htarget
  | condition K link =>
    cases K with
    | filter => nofun
    | _ => rw [field]; split <;> nofun
  | _ => nofun

namespace Query.Action

variable {q r s : Query} {a b : Action} {as bs front back : List Action} {k : Command}

/-- Two actions that write different fields give the same one after the other in either order. -/
theorem apply_comm (ha : a.apply q = .ok s) (hb : b.apply s = .ok r)
    (hne : q.command.field a.method ≠ q.command.field b.method) :
    ∃ t, b.apply q = .ok t ∧ a.apply t = .ok r := by
  obtain ⟨hadmits, f, v, rfl, rfl⟩ := (edited ha).imp_right Edited.exists_withField
  obtain ⟨hadmits', f', w, hf', rfl⟩ := (edited hb).imp_right Edited.exists_withField
  rw [command_withField] at hadmits' hf'
  subst hf'
  refine ⟨q.withField _ w, ?_, ?_⟩
  · -- the second action goes as well before the first, whose field is put back to what it was
    have hback := apply_withField hb (f := q.command.field a.method)
      (by rwa [command_withField, ne_comm])
      (Command.field_ne_table_of_admits hadmits hadmits') (q.field _)
    rwa [withField_withField, withField_field, withField_comm hne, withField_withField,
      withField_comm hne.symm, withField_field] at hback
  · exact apply_withField ha hne (Command.field_ne_table_of_admits hadmits' hadmits) w

/-- An action comes first as well as behind others that write other fields. -/
theorem run_move (h : run (front ++ a :: back) q = .ok r)
    (hfront : ∀ b ∈ front, q.command.field b.method ≠ q.command.field a.method) :
    run (a :: (front ++ back)) q = .ok r := by
  induction front generalizing q with
  | nil => exact h
  | cons b front ih =>
    -- behind `b` the action already comes first; the two are then swapped
    rw [List.forall_mem_cons] at hfront
    obtain ⟨s, hs, h⟩ := bind_eq_ok_iff.mp h
    obtain ⟨u, hu, h⟩ := bind_eq_ok_iff.mp (ih h (by rw [command_apply hs]; exact hfront.2))
    obtain ⟨t, ht, hb⟩ := apply_comm hs hu hfront.1
    exact bind_eq_ok_iff.mpr ⟨t, ht, bind_eq_ok_iff.mpr ⟨u, hb, h⟩⟩

/-- For each field, the same actions that write it in the same order. -/
def Rearranged (k : Command) (as bs : List Action) : Prop :=
  ∀ f, as.filter (fun a => k.field a.method = f) = bs.filter fun a => k.field a.method = f

theorem Rearranged.symm (h : Rearranged k as bs) : Rearranged k bs as :=
  fun f => (h f).symm

theorem Rearranged.eq_nil (h : Rearranged k [] bs) : bs = [] := by
  refine List.eq_nil_iff_forall_not_mem.mpr fun b hb => ?_
  have hnone := List.filter_eq_nil_iff.mp (h (k.field b.method)).symm
  exact hnone b hb (decide_eq_true rfl)

/-- The action that comes first in one order stands behind none of its field in the other. -/
theorem Rearranged.exists_front (h : Rearranged k (a :: as) bs) :
    ∃ front back, bs = front ++ a :: back ∧ (∀ b ∈ front, k.field b.method ≠ k.field a.method) ∧
      Rearranged k as (front ++ back) := by
  have hown := h (k.field a.method)
  rw [List.filter_cons_of_pos (by simp), eq_comm, List.filter_eq_cons_iff] at hown
  obtain ⟨front, back, rfl, hfront, -, -⟩ := hown
  simp only [decide_eq_true_eq] at hfront
  refine ⟨front, back, rfl, hfront, fun f => ?_⟩
  have hf := h f
  rw [List.filter_append, List.filter_cons, List.filter_cons] at hf
  rw [List.filter_append]
  split at hf
  · next ha =>
    have hnone : front.filter (fun b => k.field b.method = f) = [] :=
      List.filter_eq_nil_iff.mpr fun b hb => by
        rw [← of_decide_eq_true ha, decide_eq_true_eq]
        exact hfront b hb
    rw [hnone, List.nil_append] at hf ⊢
    exact (List.cons.inj hf).2
  · exact hf

theorem Rearranged.run_eq_ok (h : Rearranged q.command as bs) (hbs : run bs q = .ok r) :
    run as q = .ok r := by
  induction as generalizing q bs with
  | nil => rwa [h.eq_nil] at hbs
  | cons a as ih =>
    obtain ⟨front, back, rfl, hfront, hrest⟩ := h.exists_front
    obtain ⟨s, hs, hbs⟩ := bind_eq_ok_iff.mp (run_move hbs hfront)
    exact bind_eq_ok_iff.mpr ⟨s, hs, ih (by rwa [command_apply hs]) hbs⟩

/-- Actions may be given in any order that keeps the order of those that write one field: if one
order is refused so is the other, or else both end in one query, with one text or fault in every
dialect. -/
theorem run_rearranged (h : Rearranged q.command as bs) :
    ((∃ r, run as q = .ok r) ↔ ∃ r, run bs q = .ok r) ∧
      ∀ r r', run as q = .ok r → run bs q = .ok r' →
        r = r' ∧ ∀ d finish, r.compile d finish = r'.compile d finish := by
  refine ⟨⟨fun ⟨r, hr⟩ => ⟨r, h.symm.run_eq_ok hr⟩, fun ⟨r, hr⟩ => ⟨r, h.run_eq_ok hr⟩⟩, ?_⟩
  intro r r' hr hr'
  obtain rfl : r = r' := Except.ok.inj (hr.symm.trans (h.run_eq_ok hr'))
  exact ⟨rfl, fun _ _ => rfl⟩

/-- The target and the condition of a select may be given ahead of a join and its pairing, or
behind. -/
theorem run_rearranged_pets :
    let pets : Table := { serial := 0, name := "pets" }
    let owners : Table := { serial := 1, name := "owners" }
    let c : Criterion := .operand (.value (.truth true))
    let q : Query := { command := .statement .select }
    let as : List Action := [.target pets, .restrict .filter .plain c, .join .left owners none,
      .restrict .pairing .plain c]
    let bs : List Action := [.join .left owners none, .restrict .filter .plain c,
      .restrict .pairing .plain c, .target pets]
    Rearranged q.command as bs ∧ ∃ r, run as q = .ok r ∧ run bs q = .ok r := by
  intro pets owners c q as bs
  have h : Rearranged q.command as bs := fun f => by cases f <;> rfl
  obtain ⟨hsucceeds, hsame⟩ := run_rearranged h
  obtain ⟨r, hr⟩ : ∃ r, run as q = .ok r := ⟨_, rfl⟩
  obtain ⟨r', hr'⟩ := hsucceeds.mp ⟨r, hr⟩
  obtain rfl := (hsame r r' hr hr').1
  exact ⟨h, r, hr, hr'⟩

/-- In the scope of a pairing the order of a condition of rows and one of the pairing counts, though
they would go to two fields of a select. -/
theorem run_rearranged_ne_pairing :
    let x : Action := .restrict .filter .plain (.operand (.value (.truth true)))
    let y : Action := .restrict .pairing .plain (.operand (.value (.truth false)))
    let q : Query := .inScope (.condition .pairing)
    q.Started Listed.Named ∧ Rearranged (.statement .select) [x, y] [y, x] ∧
      ∃ r r', run [x, y] q = .ok r ∧ run [y, x] q = .ok r' ∧ r ≠ r' := by
  intro x y q
  refine ⟨.inScope _, fun f => by cases f <;> rfl, _, _, rfl, rfl, fun h => ?_⟩
  let p (b : Bool) : Cond := .predicate (.literal (.truth b) (.concrete .boolean))
  have hfilter : some (Cond.joined .both [p true, p false]) =
      some (.joined .both [p false, p true]) :=
    congrArg Query.filter h
  cases hfilter

end Query.Action

end SqlDraft
