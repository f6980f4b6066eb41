import SqlDraft.Dialect.Registry
import SqlDraft.Proofs.Registry.Journal
import SqlDraft.Signature.Registry
import SqlDraft.Sql.Outcomes

/-! Registries of functions and of dialects follow their journals: requests of any number are
answered from what has been registered, each name once in the order of its first registration, and a
refused request leaves no trace (`Registry.keeps_history`). The two differ in what may be registered
anew: a function where this is asked for, a dialect always. -/

namespace SqlDraft

open Registry (Answer Follows Inquiry Keeps Stepwise recount registered?_recount)

/-! ## Functions -/

namespace Signature.Registry

variable {r : Registry} {j : Journal Signature}

/-- What a registry of functions may be asked to do. -/
inductive Request where
  | register (s : Signature) (replace : Bool)
  | ask (i : Inquiry)

def step (r : Registry) : Request → Answer Signature × Registry
  | .register s replace =>
    match r.register s replace with
    | .ok r' => (.registered s.name s, r')
    | .error f => (.refused f, r)
  | .ask i => (SqlDraft.Registry.tell get r i, r)

/-- A function is registered under a new name, or where its replacement is asked for. -/
def answer (j : Journal Signature) : Request → Answer Signature
  | .register s replace =>
    if s.name ∈ j.names ∧ replace = false then .refused (.definition s.name .registeredTwice)
    else .registered s.name s
  | .ask i => recount .unknownFunction j i

theorem get_eq (r : Registry) (n : String) :
    get r n = (r.entries.get? n).elim (.error (.unknownFunction n)) .ok := by
  rw [get]
  cases r.entries.get? n <;> rfl

theorem register_eq (h : r.Follows j) (s : Signature) (replace : Bool) : r.register s replace =
    if s.name ∈ j.names ∧ replace = false then .error (.definition s.name .registeredTwice)
    else .ok (r.store s.name s) := by
  simp only [register, h.mem_iff]

theorem stepwise : Stepwise step answer := by
  intro r j q h
  cases q with
  | register s replace =>
    by_cases htwice : s.name ∈ j.names ∧ replace = false
    · rw [step, answer, register_eq h, if_pos htwice, if_pos htwice]
      exact ⟨rfl, by simpa [Answer.registered?] using h⟩
    · rw [step, answer, register_eq h, if_neg htwice, if_neg htwice]
      exact ⟨rfl, h.store s.name s⟩
  | ask i =>
    rw [step, answer, registered?_recount]
    exact ⟨h.tell_eq (get_eq r) i, by simpa using h⟩

theorem step_refused (r : Registry) (q : Request) (f : Fault) (h : (step r q).1 = .refused f) :
    (step r q).2 = r := by
  cases q with
  | register s replace =>
    rw [step] at h ⊢
    split at h
    · cases h
    · rfl
  | ask i => rfl

/-- Whatever is registered without replacing anything is stored. -/
theorem eq_foldl_store {r₀ : Registry} {l : List Signature}
    (h : l.foldlM (fun r s => register r s) r₀ = .ok r) :
    r = l.foldl (fun r s => r.store s.name s) r₀ := by
  induction l generalizing r₀ with
  | nil =>
    cases h
    rfl
  | cons s l ih =>
    rw [List.foldlM_cons] at h
    obtain ⟨r₁, hregister, hrest⟩ := Sql.bind_eq_ok_iff.mp h
    unfold register at hregister
    split at hregister
    · cases hregister
    · cases hregister
      exact ih hrest

theorem ofList_follows {l : List Signature} (h : ofList l = .ok r) :
    r.Follows (l.map fun s => (s.name, s)) := by
  rw [eq_foldl_store h]
  exact Follows.empty.foldl_store Signature.name l

end Signature.Registry

/-! ## Dialects -/

namespace Dialect.Registry

variable {r : Registry} {j : Journal Dialect}

/-- What a registry of dialects may be asked to do. -/
inductive Request where
  | register (d : Dialect)
  | extend (base : String) (o : Changes)
  | ask (i : Inquiry)

def step (r : Registry) : Request → Answer Dialect × Registry
  | .register d => (.registered d.name d, r.register d)
  | .extend base o =>
    match extend r base o with
    | .ok (d, r') => (.registered d.name d, r')
    | .error f => (.refused f, r)
  | .ask i => (SqlDraft.Registry.tell get r i, r)

/-- A dialect is always registered, an extension of one where that one is known. -/
def answer (j : Journal Dialect) : Request → Answer Dialect
  | .register d => .registered d.name d
  | .extend base o =>
    match j.latest base with
    | some d => .registered (d.extend o).name (d.extend o)
    | none => .refused (.unknownDialect base)
  | .ask i => recount .unknownDialect j i

theorem get_eq (r : Registry) (n : String) :
    get r n = (r.entries.get? n).elim (.error (.unknownDialect n)) .ok := by
  rw [get]
  cases r.entries.get? n <;> rfl

theorem extend_eq (h : r.Follows j) (base : String) (o : Changes) : extend r base o =
    match j.latest base with
    | some d => .ok (d.extend o, r.register (d.extend o))
    | none => .error (.unknownDialect base) := by
  rw [extend, get_eq, h.get?]
  cases j.latest base <;> rfl

theorem stepwise : Stepwise step answer := by
  intro r j q h
  cases q with
  | register d => exact ⟨rfl, h.store d.name d⟩
  | extend base o =>
    rw [step, answer, extend_eq h]
    cases j.latest base with
    | none => exact ⟨rfl, by simpa [Answer.registered?] using h⟩
    | some d => exact ⟨rfl, h.store _ _⟩
  | ask i =>
    rw [step, answer, registered?_recount]
    exact ⟨h.tell_eq (get_eq r) i, by simpa using h⟩

theorem step_refused (r : Registry) (q : Request) (f : Fault) (h : (step r q).1 = .refused f) :
    (step r q).2 = r := by
  cases q with
  | register d => cases h
  | extend base o =>
    rw [step] at h ⊢
    split at h
    · cases h
    · rfl
  | ask i => rfl

theorem ofList_follows (l : List Dialect) : (ofList l).Follows (l.map fun d => (d.name, d)) :=
  Follows.empty.foldl_store Dialect.name l

end Dialect.Registry

/-! ## Both -/

/-- Registries of functions, as far as they can be made, and of dialects keep to the journal of what
they were made from and of all that is registered later. -/
theorem Registry.keeps_history :
    (∀ (l : List Signature) (r : Signature.Registry), Signature.Registry.ofList l = .ok r →
      Keeps Signature.Registry.step Signature.Registry.answer r (l.map fun s => (s.name, s))) ∧
    ∀ l : List Dialect,
      Keeps Dialect.Registry.step Dialect.Registry.answer (Dialect.Registry.ofList l)
        (l.map fun d => (d.name, d)) :=
  ⟨fun _ _ h => (Signature.Registry.ofList_follows h).keeps Signature.Registry.stepwise
      Signature.Registry.step_refused,
    fun l => (Dialect.Registry.ofList_follows l).keeps Dialect.Registry.stepwise
      Dialect.Registry.step_refused⟩

/-- A function registered a second time only where its replacement is asked for; a dialect replaced
by its own extension, which is found when the registry is asked for it. -/
theorem Registry.keeps_history_replaced :
    let f : Signature := ⟨"f", [], .fixed .any, none⟩
    let g : Signature := ⟨"f", [.any], .fixed .any, none⟩
    let r : Signature.Registry := (∅ : Signature.Registry).store "f" f
    let qs : List Signature.Registry.Request :=
      [.register g false, .register g true, .ask (.get "g")]
    let o : Changes := { name := "generic" }
    let ds : List Dialect.Registry.Request := [.extend "ansi" o, .extend "generic" o, .ask .names]
    Signature.Registry.ofList [f] = .ok r ∧
      (run Signature.Registry.step r qs).2.Follows [("f", f), ("f", g)] ∧
      (run Signature.Registry.step r qs).2.replaced = ["f"] ∧
      (run Dialect.Registry.step (Dialect.Registry.ofList [.generic]) ds).1 =
        [.refused (.unknownDialect "ansi"), .registered "generic" (Dialect.generic.extend o),
          .named ["generic"]] := by
  intro f g r qs o ds
  have hmade : Signature.Registry.ofList [f] = .ok r := rfl
  have hfollows := (keeps_history.1 [f] r hmade).follows qs
  exact ⟨hmade, hfollows, hfollows.replaced, (keeps_history.2 [.generic]).answers ds⟩

end SqlDraft
