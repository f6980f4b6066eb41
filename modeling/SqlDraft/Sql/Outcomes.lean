import SqlDraft.Fault

/-! Lists of outcomes. The parts of a statement are written each on its own; gathering them gives
the first fault among them, in order, or else all that was written. -/

namespace SqlDraft.Sql

variable {α β γ : Type}

def gather : List (Outcome α) → Outcome (List α)
  | [] => .ok []
  | o :: os => do
    let a ← o
    let as ← gather os
    return a :: as

def gatherOption : Option (Outcome α) → Outcome (Option α)
  | none => .ok none
  | some o => o.map some

@[simp] theorem gather_nil : gather ([] : List (Outcome α)) = .ok [] := rfl

theorem gather_cons_ok (a : α) (os : List (Outcome α)) :
    gather (.ok a :: os) = (gather os).map (a :: ·) := rfl

theorem gather_cons_error (e : Fault) (os : List (Outcome α)) :
    gather (.error e :: os) = .error e := rfl

/-- Gathering succeeds just when every outcome does, with all that they give. -/
theorem gather_eq_ok_iff {os : List (Outcome α)} {as : List α} :
    gather os = .ok as ↔ os = as.map .ok := by
  induction os generalizing as with
  | nil => cases as <;> simp
  | cons o os ih =>
    cases o with
    | error e => cases as <;> simp [gather_cons_error]
    | ok a =>
      rw [gather_cons_ok]
      cases as with
      | nil =>
        cases h : gather os <;> simp [Except.map]
      | cons b bs =>
        rw [List.map_cons, List.cons.injEq, ← ih]
        cases h : gather os <;> simp [Except.map]

/-! ## Outcomes one after another -/

theorem map_eq_ok_iff {o : Outcome α} {f : α → β} {b : β} :
    o.map f = .ok b ↔ ∃ a, o = .ok a ∧ f a = b := by
  cases o <;> simp [Except.map]

theorem bind_eq_ok_iff {o : Outcome α} {f : α → Outcome β} {b : β} :
    (o >>= f) = .ok b ↔ ∃ a, o = .ok a ∧ f a = .ok b := by
  cases o <;> simp [bind, Except.bind]

theorem map_map (o : Outcome α) (f : α → β) (g : β → γ) :
    (o.map f).map g = o.map fun a => g (f a) := by
  cases o <;> rfl

theorem map_bind (o : Outcome α) (f : α → Outcome β) (g : β → γ) :
    (o >>= f).map g = o >>= fun a => (f a).map g := by
  cases o <;> rfl

theorem bind_map (o : Outcome α) (g : α → β) (f : β → Outcome γ) :
    (o.map g >>= f) = o >>= fun a => f (g a) := by
  cases o <;> rfl

theorem map_pure (a : α) (f : α → β) : (pure a : Outcome α).map f = pure (f a) := rfl

theorem gather_map (f : α → β) (os : List (Outcome α)) :
    gather (os.map (Except.map f)) = (gather os).map (List.map f) := by
  induction os with
  | nil => rfl
  | cons o os ih =>
    cases o with
    | error e => rfl
    | ok a =>
      rw [gather_cons_ok, map_map, List.map_cons]
      show gather (.ok (f a) :: _) = _
      rw [gather_cons_ok, ih, map_map]
      rfl

theorem gatherOption_map (f : α → β) (o : Option (Outcome α)) :
    gatherOption (o.map (Except.map f)) = (gatherOption o).map (Option.map f) := by
  rcases o with - | o
  · rfl
  · cases o <;> rfl

end SqlDraft.Sql
