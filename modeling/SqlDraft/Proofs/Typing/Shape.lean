import SqlDraft.Proofs.Matching.Ruling

/-! The types that values have: data of a kind, or of none known, and columns of it. How each of
them meets the parameters that functions have, and what one and two arguments come to. -/

namespace SqlDraft

namespace Ty

/-! ## Data and columns -/

/-- A scalar, or a column of it; without a kind, of what is not known. -/
def shaped (isColumn : Bool) (k : Option Kind) : Ty :=
  if isColumn then .collection (.ofKind? k) else .ofKind? k

/-- A column, or what is not known. -/
def Columnar (t : Ty) : Prop := t = .any ∨ t.isCollection = true

/-- The data is of one of the kinds, or not known. -/
def Carries (kinds : List Kind) (t : Ty) : Prop :=
  t.inner = .any ∨ ∃ k ∈ kinds, t.inner = .concrete k

/-- Two types of data are the same, or one of them is not known. -/
def Agrees (s t : Ty) : Prop := s = t ∨ s = .any ∨ t = .any

/-- The first type, or the second if the first is not known. -/
def orElse (s t : Ty) : Ty := if s = .any then t else s

/-- The type of a column of the data, or of the data alone. -/
def inColumn (isColumn : Bool) (t : Ty) : Ty := if isColumn then .collection t else t

/-! ## Shapes of the types of values -/

variable {c : Bool} {j k : Option Kind} {t : Ty}

theorem isResolved_iff : t.isResolved = true ↔ ∃ c k, t = shaped c k := by
  constructor
  · intro h
    cases t with
    | any => exact ⟨false, none, rfl⟩
    | concrete k => exact ⟨false, some k, rfl⟩
    | collection s =>
      cases s with
      | any => exact ⟨true, none, rfl⟩
      | concrete k => exact ⟨true, some k, rfl⟩
      | _ => cases h
    | _ => cases h
  · rintro ⟨c, k, rfl⟩
    cases c <;> cases k <;> rfl

@[simp] theorem inner_shaped : (shaped c k).inner = .ofKind? k := by
  cases c <;> cases k <;> rfl

@[simp] theorem isCollection_shaped : (shaped c k).isCollection = c := by
  cases c <;> cases k <;> rfl

@[simp] theorem isResolved_shaped : (shaped c k).isResolved = true := isResolved_iff.mpr ⟨c, k, rfl⟩

theorem isGround_shaped : (shaped c k).isGround = true := by
  cases c <;> cases k <;> rfl

theorem isResolved_ofKind? : (ofKind? k).isResolved = true := by
  cases k <;> rfl

theorem isResolved_collection_inner (h : t.isResolved = true) :
    (collection t.inner).isResolved = true := by
  obtain ⟨c, k, rfl⟩ := isResolved_iff.mp h
  rw [inner_shaped]
  exact isResolved_shaped (c := true)

@[simp] theorem columnar_shaped_iff : (shaped c k).Columnar ↔ c = true ∨ k = none := by
  cases c <;> cases k <;> simp [Columnar, shaped, ofKind?, isCollection]

@[simp] theorem carries_shaped_iff {kinds : List Kind} :
    (shaped c k).Carries kinds ↔ ∀ j ∈ k, j ∈ kinds := by
  cases k <;> simp [Carries, ofKind?]

@[simp] theorem agrees_ofKind?_iff :
    (ofKind? j).Agrees (ofKind? k) ↔ ∀ a ∈ j, ∀ b ∈ k, a = b := by
  cases j <;> cases k <;> simp [Agrees, ofKind?]

@[simp] theorem orElse_ofKind? : (ofKind? j).orElse (ofKind? k) = ofKind? (j.or k) := by
  cases j <;> cases k <;> rfl

/-! ## How the parameters fit -/

variable {v : TypeVar} {i : Kind} {f : Fit}

theorem fit?_scalarOrColumn_var : fit? .strict (scalarOrColumn (var v)) (shaped c k) = some f ↔
    (shaped c k).Carries v.bound ∧ f = ⟨inColumn c (var v), some (v, k)⟩ := by
  rw [carries_shaped_iff]
  cases c <;> cases k <;>
    simp [scalarOrColumn, shaped, ofKind?, inColumn, fit?, fitFirst?, fitVar?, demandFor?,
      Agreement.allows_strict_iff, eq_comm (a := f)]

theorem fit?_scalarOrColumn_concrete :
    fit? .strict (scalarOrColumn (concrete i)) (shaped c k) = some f ↔
    (shaped c k).Carries [i] ∧ f = ⟨inColumn c (concrete i), none⟩ := by
  rw [carries_shaped_iff]
  cases c <;> cases k <;>
    simp [scalarOrColumn, shaped, ofKind?, inColumn, fit?, fitFirst?, fitKind?,
      Agreement.allows_strict_iff, eq_comm (a := f), eq_comm (a := i)]

theorem fit?_collection_var : fit? .strict (collection (var v)) (shaped c k) = some f ↔
    ((shaped c k).Columnar ∧ (shaped c k).Carries v.bound) ∧
    f = ⟨collection (var v), some (v, k)⟩ := by
  rw [columnar_shaped_iff, carries_shaped_iff]
  cases c <;> cases k <;>
    simp [shaped, ofKind?, fit?, fitVar?, demandFor?, fitOfAny, leadVar?,
      Agreement.allows_strict_iff, eq_comm (a := f)]

theorem fit?_collection_any : fit? .strict (collection any) (shaped c k) = some f ↔
    (shaped c k).Columnar ∧ f = ⟨collection (ofKind? k), none⟩ := by
  rw [columnar_shaped_iff]
  cases c <;> cases k <;> simp [shaped, ofKind?, fit?, fitOfAny, leadVar?, eq_comm (a := f)]

/-- What meets a scalar or a column of the data, whatever its type, has data that agrees with
that. -/
theorem agrees_of_meets_scalarOrColumn (h : Meets .strict (scalarOrColumn (ofKind? k)) t) :
    t.inner.Agrees (ofKind? k) := by
  cases k with
  | none => exact .inr (.inr rfl)
  | some i =>
    have scalar {s : Ty} (h : Meets .strict (concrete i) s) : s = concrete i ∨ s = any := by
      rcases meets_concrete_iff.mp h with rfl | ⟨j, rfl, hij⟩
      · exact .inr rfl
      · exact .inl (congrArg concrete (Agreement.allows_strict_iff.mp hij).symm)
    obtain ⟨e, he, h⟩ := meets_union_iff.mp h
    rcases List.mem_cons.mp he with rfl | he
    · rcases scalar h with rfl | rfl
      · exact .inl rfl
      · exact .inr (.inl rfl)
    · obtain rfl := List.mem_singleton.mp he
      rcases meets_collection_iff.mp h with rfl | ⟨s, rfl, hs⟩
      · exact .inr (.inl rfl)
      · exact (scalar hs).imp_right .inl

theorem carries_all : (shaped c k).Carries Kind.all :=
  carries_shaped_iff.mpr fun j _ => Kind.mem_all j

end Ty

/-! ## Matches of one and of two positions -/

namespace Match

open Ty

variable {function : String} {e e' s t : Ty}

theorem not_clashes_single (id : String) {k : Option Kind} : ¬ Clashes .strict [⟨id, 0, k⟩] id := by
  cases k <;> simp [Clashes, kindsFor, Agreement.allows_strict_iff]

theorem not_clashes_pair_iff (id : String) {j k : Option Kind} :
    ¬ Clashes .strict [⟨id, 0, j⟩, ⟨id, 1, k⟩] id ↔ (Ty.ofKind? j).Agrees (.ofKind? k) := by
  rw [agrees_ofKind?_iff]
  cases j <;> cases k <;> simp [Clashes, kindsFor, Agreement.allows_strict_iff, eq_comm]

theorem bindingFor_single (id : String) {k : Option Kind} :
    bindingFor [⟨id, 0, k⟩] id = ⟨[0], .ofKind? k⟩ := by
  cases k <;> simp [bindingFor, kindsFor]

theorem bindingFor_pair (id : String) {j k : Option Kind} :
    bindingFor [⟨id, 0, j⟩, ⟨id, 1, k⟩] id = ⟨[0, 1], .ofKind? (j.or k)⟩ := by
  cases j <;> cases k <;> simp [bindingFor, kindsFor]

theorem exists_fit_of_run_single {m : Match} (h : run .strict function [e] [s] = .ok m) :
    ∃ f, e.fit? .strict s = some f := by
  obtain ⟨-, fs, hfs, -⟩ := exists_fits_of_run h
  cases fs with
  | nil => cases hfs
  | cons f fs => exact ⟨f, (List.cons.inj hfs).1⟩

theorem exists_fits_of_run_pair {m : Match} (h : run .strict function [e, e'] [s, t] = .ok m) :
    ∃ f f', e.fit? .strict s = some f ∧ e'.fit? .strict t = some f' ∧
      ∀ d ∈ demands 0 [f, f'], ¬ Clashes .strict (demands 0 [f, f']) d.id := by
  obtain ⟨-, fs, hfs, hclash⟩ := exists_fits_of_run h
  cases fs with
  | nil => cases hfs
  | cons f fs =>
    obtain ⟨hf, hfs⟩ := List.cons.inj hfs
    cases fs with
    | nil => cases hfs
    | cons f' fs =>
      obtain ⟨hf', hfs⟩ := List.cons.inj hfs
      cases fs with
      | nil => exact ⟨f, f', hf, hf', hclash⟩
      | cons => cases hfs

/-- One position that fits is matched, and its variable stands for what is given. -/
theorem exists_run_single (function : String) (he : e.shallow = true)
    (hs : s.isGround = true) {f : Fit}
    (hf : e.fit? .strict s = some f) : ∃ m, run .strict function [e] [s] = .ok m ∧
      ∀ v k, f.demand = some (v, k) → ∃ is, m.bindings.get? v.id = some ⟨is, .ofKind? k⟩ := by
  have hfs : ([e].zip [s]).map (fun p => p.1.fit? .strict p.2) = [f].map some := by simp [hf]
  have hclash : ∀ d ∈ demands 0 [f], ¬ Clashes .strict (demands 0 [f]) d.id := by
    obtain ⟨x, - | ⟨v, k⟩⟩ := f
    · exact List.forall_mem_nil _
    · exact List.forall_mem_singleton.mpr (not_clashes_single v.id)
  obtain ⟨m, hm, -, hbound⟩ := exists_run function (List.forall_mem_singleton.mpr he)
    (List.forall_mem_singleton.mpr hs) rfl hfs hclash
  refine ⟨m, hm, fun v k hdemand => ⟨[0], ?_⟩⟩
  have hds : demands 0 [f] = [⟨v.id, 0, k⟩] := by rw [demands, hdemand]; rfl
  rw [hds] at hbound
  rw [hbound _ List.mem_cons_self, bindingFor_single]

/-- Two positions that fit are matched when what they are given for their variables does not
clash. -/
theorem exists_run_pair (function : String) (he : e.shallow = true) (he' : e'.shallow = true)
    (hs : s.isGround = true) (ht : t.isGround = true) {f f' : Fit} (hf : e.fit? .strict s = some f)
    (hf' : e'.fit? .strict t = some f')
    (hclash : ∀ d ∈ demands 0 [f, f'], ¬ Clashes .strict (demands 0 [f, f']) d.id) :
    ∃ m, run .strict function [e, e'] [s, t] = .ok m ∧
      substituteAll function m.bindings [f.type, f'.type] = .ok m.types ∧
      ∀ d ∈ demands 0 [f, f'],
        m.bindings.get? d.id = some (bindingFor (demands 0 [f, f']) d.id) := by
  have hexpected : ∀ x ∈ [e, e'], x.shallow = true := by simp [he, he']
  have hgiven : ∀ x ∈ [s, t], x.isGround = true := by simp [hs, ht]
  have hfs : ([e, e'].zip [s, t]).map (fun p => p.1.fit? .strict p.2) = [f, f'].map some := by
    simp [hf, hf']
  exact exists_run function hexpected hgiven rfl hfs hclash

/-- Two positions that make demands on one variable are matched when what they are given for it
agrees, and it stands for what is known of that. -/
theorem exists_run_pair_var (function : String) (he : e.shallow = true) (he' : e'.shallow = true)
    (hs : s.isGround = true) (ht : t.isGround = true) {x y : Ty} {v : TypeVar} {j k : Option Kind}
    (hf : e.fit? .strict s = some ⟨x, some (v, j)⟩)
    (hf' : e'.fit? .strict t = some ⟨y, some (v, k)⟩)
    (h : (Ty.ofKind? j).Agrees (.ofKind? k)) : ∃ m, run .strict function [e, e'] [s, t] = .ok m ∧
      substituteAll function m.bindings [x, y] = .ok m.types ∧
      ∃ is, m.bindings.get? v.id = some ⟨is, .ofKind? (j.or k)⟩ := by
  have hclash := (not_clashes_pair_iff v.id).mpr h
  obtain ⟨m, hm, htypes, hbound⟩ :=
    exists_run_pair function he he' hs ht hf hf' (by simp [demands, hclash])
  refine ⟨m, hm, htypes, [0, 1], ?_⟩
  rw [← bindingFor_pair v.id]
  exact hbound _ List.mem_cons_self

theorem exists_run_single_iff {p : Prop} {f₀ : Fit} (he : e.shallow = true) (hs : s.isGround = true)
    (h : ∀ {f}, e.fit? .strict s = some f ↔ p ∧ f = f₀) :
    (∃ m, run .strict function [e] [s] = .ok m) ↔ p := by
  constructor
  · rintro ⟨m, hm⟩
    obtain ⟨f, hf⟩ := exists_fit_of_run_single hm
    exact (h.mp hf).1
  · intro hp
    obtain ⟨m, hm, -⟩ := exists_run_single function he hs (h.mpr ⟨hp, rfl⟩)
    exact ⟨m, hm⟩

theorem exists_run_pair_iff {p q : Prop} {x y : Ty} (he : e.shallow = true)
    (he' : e'.shallow = true) (hs : s.isGround = true) (ht : t.isGround = true)
    (h : ∀ {f}, e.fit? .strict s = some f ↔ p ∧ f = ⟨x, none⟩)
    (h' : ∀ {f}, e'.fit? .strict t = some f ↔ q ∧ f = ⟨y, none⟩) :
    (∃ m, run .strict function [e, e'] [s, t] = .ok m) ↔ p ∧ q := by
  constructor
  · rintro ⟨m, hm⟩
    obtain ⟨f, f', hf, hf', -⟩ := exists_fits_of_run_pair hm
    exact ⟨(h.mp hf).1, (h'.mp hf').1⟩
  · rintro ⟨hp, hq⟩
    obtain ⟨m, hm, -⟩ := exists_run_pair function he he' hs ht (h.mpr ⟨hp, rfl⟩) (h'.mpr ⟨hq, rfl⟩)
      (List.forall_mem_nil _)
    exact ⟨m, hm⟩

theorem exists_run_pair_var_iff {p q : Prop} {x y : Ty} {v : TypeVar} {j k : Option Kind}
    (he : e.shallow = true) (he' : e'.shallow = true) (hs : s.isGround = true)
    (ht : t.isGround = true) (h : ∀ {f}, e.fit? .strict s = some f ↔ p ∧ f = ⟨x, some (v, j)⟩)
    (h' : ∀ {f}, e'.fit? .strict t = some f ↔ q ∧ f = ⟨y, some (v, k)⟩) :
    (∃ m, run .strict function [e, e'] [s, t] = .ok m) ↔
      p ∧ q ∧ (Ty.ofKind? j).Agrees (.ofKind? k) := by
  constructor
  · rintro ⟨m, hm⟩
    obtain ⟨f, f', hf, hf', hclash⟩ := exists_fits_of_run_pair hm
    obtain ⟨hp, rfl⟩ := h.mp hf
    obtain ⟨hq, rfl⟩ := h'.mp hf'
    exact ⟨hp, hq, (not_clashes_pair_iff v.id).mp (hclash _ List.mem_cons_self)⟩
  · rintro ⟨hp, hq, hagrees⟩
    obtain ⟨m, hm, -⟩ :=
      exists_run_pair_var function he he' hs ht (h.mpr ⟨hp, rfl⟩) (h'.mpr ⟨hq, rfl⟩) hagrees
    exact ⟨m, hm⟩

end Match

end SqlDraft
