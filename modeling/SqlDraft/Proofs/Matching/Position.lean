import SqlDraft.Ty.Fit

/-! One position of a match, by rules. `Ty.Meets` says which types given meet one expected,
`Ty.Chooses` which alternative decides, and `Ty.Asks` what is given in place of its variable. The
last two follow the order of the alternatives; meeting does not. What `Ty.fit?` computes is told by
the three of them. -/

namespace SqlDraft.Ty

/-! ## Shapes -/

/-- The kind of a scalar whose kind is known. -/
def kind? : Ty → Option Kind
  | concrete k => some k
  | _ => none

def unionFree : Ty → Bool
  | any | concrete _ | var _ => true
  | collection t => t.unionFree
  | union _ => false

mutual

/-- No union stands inside a collection. -/
def shallow : Ty → Bool
  | any | concrete _ | var _ => true
  | collection t => t.unionFree
  | union ts => shallowAll ts

def shallowAll : List Ty → Bool
  | [] => true
  | t :: ts => t.shallow && shallowAll ts

end

/-- Neither a union nor a variable stands in the type. -/
def isGround : Ty → Bool
  | any | concrete _ => true
  | collection t => t.isGround
  | union _ | var _ => false

/-- The only variables in the type are those named, and there is no union in it. -/
def Within (ids : List String) : Ty → Prop
  | any | concrete _ => True
  | collection t => t.Within ids
  | var v => v.id ∈ ids
  | union _ => False

/-! ## Rules -/

variable {g : Agreement} {e t s l : Ty} {v : TypeVar} {k : Option Kind} {f : Fit}

/-- The type given, on the right, meets the one expected, on the left. -/
inductive Meets (g : Agreement) : Ty → Ty → Prop
  | any {t : Ty} : Meets g any t
  | union {es : List Ty} {e t : Ty} (he : e ∈ es) (h : Meets g e t) : Meets g (union es) t
  | unknown {e : Ty} (he : ∀ es, e ≠ .union es) : Meets g e any
  | kind {j k : Kind} (h : g.Allows j k) : Meets g (concrete j) (concrete k)
  | collection {e t : Ty} (h : Meets g e t) : Meets g (collection e) (collection t)
  | varAny {v : TypeVar} {t : Ty} (ht : t.inner = .any) : Meets g (var v) t
  | varKind {v : TypeVar} {t : Ty} {j k : Kind} (ht : t.inner = .concrete k) (hj : j ∈ v.bound)
      (h : g.Allows j k) : Meets g (var v) t

/-- The alternative that a type given is met by: in each union the first that it meets. -/
inductive Chooses (g : Agreement) : (expected given alternative : Ty) → Prop
  | itself {e t : Ty} (he : ∀ es, e ≠ union es) (h : Meets g e t) : Chooses g e t e
  | first {front back : List Ty} {e t l : Ty} (hfront : ∀ a ∈ front, ¬ Meets g a t)
      (h : Chooses g e t l) : Chooses g (union (front ++ e :: back)) t l

/-- What is given in place of the variable of an alternative, one collection stripped: a kind, or
none for `any`. Below a given `any` there is `any` at every depth. -/
inductive Asks : (alternative given : Ty) → TypeVar → Option Kind → Prop
  | here {v : TypeVar} {t : Ty} : Asks (var v) t v t.inner.kind?
  | unknown {e : Ty} {v : TypeVar} {k : Option Kind} (h : Asks e any v k) :
      Asks (collection e) any v k
  | inner {e t : Ty} {v : TypeVar} {k : Option Kind} (h : Asks e t v k) :
      Asks (collection e) (collection t) v k

/-! ## Which types meet -/

theorem meets_var_iff : Meets g (var v) t ↔
    t.inner = any ∨ ∃ k, t.inner = concrete k ∧ ∃ j ∈ v.bound, g.Allows j k := by
  constructor
  · intro h
    cases h with
    | unknown => exact .inl rfl
    | varAny ht => exact .inl ht
    | varKind ht hj h => exact .inr ⟨_, ht, _, hj, h⟩
  · rintro (ht | ⟨k, ht, j, hj, h⟩)
    · exact .varAny ht
    · exact .varKind ht hj h

theorem meets_concrete_iff {j : Kind} :
    Meets g (concrete j) t ↔ t = any ∨ ∃ k, t = concrete k ∧ g.Allows j k := by
  constructor
  · intro h
    cases h with
    | unknown => exact .inl rfl
    | kind h => exact .inr ⟨_, rfl, h⟩
  · rintro (rfl | ⟨k, rfl, h⟩)
    · exact .unknown nofun
    · exact .kind h

theorem meets_collection_iff :
    Meets g (collection e) t ↔ t = any ∨ ∃ s, t = collection s ∧ Meets g e s := by
  constructor
  · intro h
    cases h with
    | unknown => exact .inl rfl
    | collection h => exact .inr ⟨_, rfl, h⟩
  · rintro (rfl | ⟨s, rfl, h⟩)
    · exact .unknown nofun
    · exact .collection h

theorem meets_union_iff {es : List Ty} : Meets g (union es) t ↔ ∃ e ∈ es, Meets g e t := by
  constructor
  · intro h
    cases h with
    | union he h => exact ⟨_, he, h⟩
    | unknown he => exact absurd rfl (he es)
  · rintro ⟨e, he, h⟩
    exact .union he h

theorem demandFor?_isSome_iff : (demandFor? g v s).isSome ↔
    s = any ∨ ∃ k, s = concrete k ∧ ∃ j ∈ v.bound, g.Allows j k := by
  cases s with
  | concrete k =>
    unfold demandFor?
    split <;> simp_all
  | _ => simp [demandFor?]

theorem fitVar?_eq_some (h : fitVar? g v t = some f) :
    f.demand = some (v, t.inner.kind?) ∧ (f.type = var v ∨ f.type = collection (var v)) := by
  have hdemand {s : Ty} {d : TypeVar × Option Kind} (h : demandFor? g v s = some d) :
      d = (v, s.kind?) := by
    unfold demandFor? at h
    split at h
    · exact (Option.some.inj h).symm
    · split at h
      · exact (Option.some.inj h).symm
      · cases h
    · cases h
  unfold fitVar? at h
  split at h
  · obtain ⟨d, hd, rfl⟩ := Option.map_eq_some_iff.mp h
    exact ⟨congrArg some (hdemand hd), .inr rfl⟩
  · next hne =>
    obtain ⟨d, hd, rfl⟩ := Option.map_eq_some_iff.mp h
    have hinner : t.inner = t := by
      cases t with
      | collection s => exact absurd rfl (hne s)
      | _ => rfl
    exact ⟨hinner.symm ▸ congrArg some (hdemand hd), .inl rfl⟩

theorem fitKind?_eq_some {j : Kind} (h : fitKind? g j t = some f) : f = ⟨concrete j, none⟩ := by
  unfold fitKind? at h
  split at h
  · exact (Option.some.inj h).symm
  · split at h
    · exact (Option.some.inj h).symm
    · cases h
  · cases h

/-- A collection is met by `any`, or by a collection whose data fits below it. -/
theorem fitCollection_eq_some (h : fit? g (collection e) t = some f) :
    (t = any ∧ f = fitOfAny (collection e)) ∨
      ∃ s f', t = collection s ∧ fit? g e s = some f' ∧
        f = { f' with type := collection f'.type } := by
  rw [fit?.eq_def] at h
  cases t with
  | any => exact .inl ⟨rfl, (Option.some.inj h).symm⟩
  | collection s =>
    obtain ⟨f', hf', rfl⟩ := Option.map_eq_some_iff.mp h
    exact .inr ⟨s, f', rfl, hf', rfl⟩
  | _ => cases h

mutual

/-- A position fits just when the type given meets the one expected. -/
theorem fit?_isSome_iff : ∀ {e t : Ty}, (fit? g e t).isSome ↔ Meets g e t
  | any, _ => ⟨fun _ => .any, fun _ => rfl⟩
  | union _, _ => by rw [fit?, meets_union_iff, fitFirst?_isSome_iff]
  | var v, t => by
    have hinner : (fitVar? g v t).isSome = (demandFor? g v t.inner).isSome := by
      cases t <;> simp [fitVar?, inner]
    rw [fit?, meets_var_iff, hinner, demandFor?_isSome_iff]
  | concrete j, t => by
    rw [fit?, meets_concrete_iff]
    cases t with
    | concrete k =>
      unfold fitKind?
      split <;> simp_all
    | _ => simp [fitKind?]
  | collection e, t => by
    rw [fit?.eq_def, meets_collection_iff]
    cases t with
    | collection s => simp [fit?_isSome_iff (e := e)]
    | _ => simp

theorem fitFirst?_isSome_iff : ∀ {es : List Ty} {t : Ty},
    (fitFirst? g es t).isSome ↔ ∃ e ∈ es, Meets g e t
  | [], _ => by simp [fitFirst?]
  | e :: es, t => by
    simp only [fitFirst?, Option.isSome_or, Bool.or_eq_true, fit?_isSome_iff (e := e),
      @fitFirst?_isSome_iff es, List.mem_cons, exists_eq_or_imp]

end

theorem fit?_eq_none_iff : fit? g e t = none ↔ ¬ Meets g e t := by
  rw [← fit?_isSome_iff, Option.not_isSome_iff_eq_none]

/-! ## Which alternative decides -/

theorem Chooses.meets (h : Chooses g e t l) : Meets g e t := by
  induction h with
  | itself _ h => exact h
  | first _ _ ih => exact .union (List.mem_append_right _ List.mem_cons_self) ih

theorem Chooses.unique {l' : Ty} (h : Chooses g e t l) (h' : Chooses g e t l') : l = l' := by
  induction h generalizing l' with
  | itself he =>
    cases h' with
    | itself => rfl
    | first => exact absurd rfl (he _)
  | @first front back e t l hfront h ih =>
    generalize he : union (front ++ e :: back) = u at h'
    cases h' with
    | itself hu => exact absurd he.symm (hu _)
    | @first front' back' e' _ _ hfront' h' =>
      -- both fronts stop at the first alternative that is met
      have hsame : front = front' ∧ e :: back = e' :: back' := by
        refine List.append_eq_append_iff.mp (union.inj he) |>.elim ?_ ?_
        · rintro ⟨c, rfl, hc⟩
          cases c with
          | nil => exact ⟨by simp, by simpa using hc⟩
          | cons a c =>
            obtain ⟨rfl, -⟩ := List.cons.inj hc
            exact absurd h.meets (hfront' _ (by simp))
        · rintro ⟨c, rfl, hc⟩
          cases c with
          | nil => exact ⟨by simp, by simpa using hc.symm⟩
          | cons a c =>
            obtain ⟨rfl, -⟩ := List.cons.inj hc
            exact absurd h'.meets (hfront _ (by simp))
      obtain ⟨rfl, -⟩ := List.cons.inj hsame.2
      exact ih h'

mutual

/-- What fits is met by an alternative, and fits it alike. -/
theorem exists_chooses : ∀ {e t : Ty} {f : Fit}, e.shallow = true → fit? g e t = some f →
    ∃ l, Chooses g e t l ∧ l.unionFree = true ∧ fit? g l t = some f
  | any, _, _, _, h => ⟨any, .itself nofun .any, rfl, h⟩
  | concrete j, _, _, _, h =>
    ⟨concrete j, .itself nofun (fit?_isSome_iff.mp (Option.isSome_of_eq_some h)), rfl, h⟩
  | var v, _, _, _, h =>
    ⟨var v, .itself nofun (fit?_isSome_iff.mp (Option.isSome_of_eq_some h)), rfl, h⟩
  | collection e, _, _, he, h =>
    ⟨collection e, .itself nofun (fit?_isSome_iff.mp (Option.isSome_of_eq_some h)), he, h⟩
  | union es, t, f, he, h => by
    rw [fit?] at h
    obtain ⟨front, e, back, rfl, hfront, l, hl⟩ := exists_chooses_first he h
    exact ⟨l, .first hfront hl.1, hl.2⟩

theorem exists_chooses_first : ∀ {es : List Ty} {t : Ty} {f : Fit}, shallowAll es = true →
    fitFirst? g es t = some f → ∃ front e back, es = front ++ e :: back ∧
      (∀ a ∈ front, ¬ Meets g a t) ∧ ∃ l, Chooses g e t l ∧ l.unionFree = true ∧ fit? g l t = some f
  | [], _, _, _, h => by cases h
  | e :: es, t, f, hes, h => by
    obtain ⟨he, hes⟩ := Bool.and_eq_true_iff.mp hes
    rw [fitFirst?] at h
    cases hfit : fit? g e t with
    | some f' =>
      rw [hfit, Option.some_or] at h
      exact ⟨[], e, es, rfl, List.forall_mem_nil _, exists_chooses he (hfit.trans h)⟩
    | none =>
      rw [hfit, Option.none_or] at h
      obtain ⟨front, e', back, rfl, hfront, hl⟩ := exists_chooses_first hes h
      exact ⟨e :: front, e', back, rfl,
        List.forall_mem_cons.mpr ⟨fit?_eq_none_iff.mp hfit, hfront⟩, hl⟩

end

/-! ## What is given for the variable -/

theorem Asks.unique {w : TypeVar} {j : Option Kind} (h : Asks l t v k) (h' : Asks l t w j) :
    v = w ∧ k = j := by
  induction h with
  | here => cases h'; exact ⟨rfl, rfl⟩
  | unknown _ ih => cases h' with | unknown h' => exact ih h'
  | inner _ ih => cases h' with | inner h' => exact ih h'

theorem asks_any_iff : ∀ {l : Ty}, l.unionFree = true →
    (Asks l any v k ↔ leadVar? l = some v ∧ k = none)
  | any, _ => ⟨nofun, nofun⟩
  | concrete _, _ => ⟨nofun, nofun⟩
  | var w, _ => by
    constructor
    · rintro ⟨⟩
      exact ⟨rfl, rfl⟩
    · rintro ⟨h, rfl⟩
      cases h
      exact .here
  | collection l, hl => by
    rw [leadVar?, ← asks_any_iff (l := l) hl]
    exact ⟨fun h => by cases h with | unknown h => exact h, .unknown⟩

/-- The demand of a position is what is given for the variable of the alternative. -/
theorem demand_eq_some_iff : ∀ {l t : Ty} {f : Fit}, l.unionFree = true → fit? g l t = some f →
    (f.demand = some (v, k) ↔ Asks l t v k)
  | any, _, _, _, h => by
    cases h
    exact ⟨nofun, nofun⟩
  | concrete j, _, _, _, h => by
    rw [fitKind?_eq_some h]
    exact ⟨nofun, nofun⟩
  | var w, _, _, _, h => by
    rw [(fitVar?_eq_some h).1]
    constructor
    · rintro ⟨⟩
      exact .here
    · rintro ⟨⟩
      rfl
  | collection l, t, f, hl, h => by
    rcases fitCollection_eq_some h with ⟨rfl, rfl⟩ | ⟨s, f', rfl, hf', rfl⟩
    · rw [asks_any_iff (l := collection l) hl, fitOfAny, Option.map_eq_some_iff]
      constructor
      · rintro ⟨w, hw, ⟨⟩⟩
        exact ⟨hw, rfl⟩
      · rintro ⟨hv, rfl⟩
        exact ⟨v, hv, rfl⟩
    · rw [demand_eq_some_iff (l := l) hl hf']
      exact ⟨.inner, fun h => by cases h with | inner h => exact h⟩

/-! ## What a position settles on -/

theorem within_of_isGround {ids : List String} : ∀ {t : Ty}, t.isGround = true → t.Within ids
  | any, _ => trivial
  | concrete _, _ => trivial
  | collection t, h => within_of_isGround (t := t) h

theorem within_of_leadVar? {ids : List String} : ∀ {l : Ty}, l.unionFree = true →
    (∀ v, leadVar? l = some v → v.id ∈ ids) → l.Within ids
  | any, _, _ => trivial
  | concrete _, _, _ => trivial
  | var v, _, h => h v rfl
  | collection l, hl, h => within_of_leadVar? (l := l) hl fun v hv => h v (by rwa [leadVar?])

/-- A position settles on a type in which at most the variable it makes a demand on remains. -/
theorem within_of_fit? {ids : List String} : ∀ {l t : Ty} {f : Fit}, l.unionFree = true →
    t.isGround = true → fit? g l t = some f → (∀ v k, f.demand = some (v, k) → v.id ∈ ids) →
    f.type.Within ids
  | any, _, _, _, ht, h, _ => by
    cases h
    exact within_of_isGround ht
  | concrete j, _, _, _, _, h, _ => by
    rw [fitKind?_eq_some h]
    trivial
  | var w, _, _, _, _, h, hids => by
    obtain ⟨hdemand, htype⟩ := fitVar?_eq_some h
    have hmem : w.id ∈ ids := hids w _ hdemand
    rcases htype with htype | htype
    · rw [htype]
      exact hmem
    · rw [htype]
      exact hmem
  | collection l, t, f, hl, ht, h, hids => by
    rcases fitCollection_eq_some h with ⟨rfl, rfl⟩ | ⟨s, f', rfl, hf', rfl⟩
    · refine within_of_leadVar? (l := collection l) hl fun v hv => hids v none ?_
      simp [fitOfAny, hv]
    · exact within_of_fit? (l := l) (t := s) (f := f') hl ht hf' hids

end SqlDraft.Ty
