import Mathlib.Data.List.Perm.Basic
import SqlDraft.Proofs.Matching.Ruling

/-! Which kinds are accepted together for one variable. Every candidate is checked against the first
one and against no other, so two that may not stand in for one another pass when there is a third
that both may stand in for. Over the matches that a table lets pass, candidates agree two by two
just when the table is transitive, and then alone the order of the arguments makes no difference
(`Match.run_accord_iff`). -/

namespace SqlDraft

/-- Kinds that may stand in for a third may stand in for one another. -/
def Agreement.Transitive (g : Agreement) : Prop :=
  ∀ a b c, g.Allows a b → g.Allows b c → g.Allows a c

instance (g : Agreement) : Decidable g.Transitive :=
  decidable_of_iff (∀ a ∈ Kind.all, ∀ b ∈ Kind.all, ∀ c ∈ Kind.all, g.Allows a b →
    g.Allows b c → g.Allows a c)
    ⟨fun h a b c => h a (Kind.mem_all a) b (Kind.mem_all b) c (Kind.mem_all c),
      fun h a _ b _ c _ => h a b c⟩

/-! ## What a position records -/

namespace Ty

variable {g : Agreement} {e t : Ty} {v : TypeVar} {k : Option Kind} {f : Fit}

/-- What is recorded for a variable where the type given meets the one expected: the kind given in
its place, of the first alternative met, or no kind if that is not known. -/
inductive Records (g : Agreement) : (expected given : Ty) → TypeVar → Option Kind → Prop
  | here {v : TypeVar} {t : Ty} (h : Meets g (var v) t) : Records g (var v) t v t.inner.kind?
  | head {e t : Ty} {es : List Ty} {v : TypeVar} {k : Option Kind} (he : Meets g e t)
      (h : Records g e t v k) : Records g (union (e :: es)) t v k
  | tail {e t : Ty} {es : List Ty} {v : TypeVar} {k : Option Kind} (he : ¬ Meets g e t)
      (h : Records g (union es) t v k) : Records g (union (e :: es)) t v k
  | inner {e t : Ty} {v : TypeVar} {k : Option Kind} (h : Records g e t v k) :
      Records g (collection e) (collection t) v k
  | unknown {e : Ty} {v : TypeVar} (h : leadVar? e = some v) : Records g (collection e) any v none

theorem records_collection_iff :
    Records g (collection e) (collection t) v k ↔ Records g e t v k :=
  ⟨fun h => by cases h with | inner h => exact h, .inner⟩

theorem records_collection_any_iff :
    Records g (collection e) any v k ↔ leadVar? e = some v ∧ k = none := by
  constructor
  · rintro ⟨⟩
    exact ⟨‹_›, rfl⟩
  · rintro ⟨h, rfl⟩
    exact .unknown h

theorem records_union_cons_of_meets {es : List Ty} (he : Meets g e t) :
    Records g (union (e :: es)) t v k ↔ Records g e t v k := by
  constructor
  · intro h
    cases h with
    | head _ h => exact h
    | tail hne => exact absurd he hne
  · exact .head he

theorem records_union_cons_of_not_meets {es : List Ty} (he : ¬ Meets g e t) :
    Records g (union (e :: es)) t v k ↔ Records g (union es) t v k := by
  constructor
  · intro h
    cases h with
    | head hmeets => exact absurd hmeets he
    | tail _ h => exact h
  · exact .tail he

mutual

/-- The demand of a position that fits is what it records. -/
theorem demand_eq_some_iff_records : ∀ {e t : Ty} {f : Fit}, fit? g e t = some f →
    (f.demand = some (v, k) ↔ Records g e t v k)
  | any, _, _, h => by
    cases h
    exact ⟨nofun, nofun⟩
  | concrete j, _, _, h => by
    rw [fitKind?_eq_some h]
    exact ⟨nofun, nofun⟩
  | var w, t, _, h => by
    have hmeets : Meets g (var w) t := fit?_isSome_iff.mp (Option.isSome_of_eq_some h)
    rw [(fitVar?_eq_some h).1]
    constructor
    · rintro ⟨⟩
      exact .here hmeets
    · rintro ⟨⟩
      rfl
  | collection e, t, f, h => by
    rcases fitCollection_eq_some h with ⟨rfl, rfl⟩ | ⟨s, f', rfl, hf', rfl⟩
    · rw [records_collection_any_iff, fitOfAny, leadVar?, Option.map_eq_some_iff]
      constructor
      · rintro ⟨w, hw, ⟨⟩⟩
        exact ⟨hw, rfl⟩
      · rintro ⟨hv, rfl⟩
        exact ⟨v, hv, rfl⟩
    · rw [records_collection_iff, demand_eq_some_iff_records (e := e) hf']
  | union es, t, f, h => demand_eq_some_iff_records_first h

theorem demand_eq_some_iff_records_first :
    ∀ {es : List Ty} {t : Ty} {f : Fit}, fitFirst? g es t = some f →
    (f.demand = some (v, k) ↔ Records g (union es) t v k)
  | [], _, _, h => by cases h
  | e :: es, t, f, h => by
    rw [fitFirst?] at h
    cases hfit : fit? g e t with
    | some f' =>
      have he : Meets g e t := fit?_isSome_iff.mp (Option.isSome_of_eq_some hfit)
      rw [hfit, Option.some_or] at h
      rw [records_union_cons_of_meets he, demand_eq_some_iff_records (e := e) (hfit.trans h)]
    | none =>
      rw [hfit, Option.none_or] at h
      rw [records_union_cons_of_not_meets (fit?_eq_none_iff.mp hfit),
        demand_eq_some_iff_records_first h]

end

theorem isGround_of_meets_var (h : Meets g (var v) t) : t.isGround = true := by
  rcases meets_var_iff.mp h with h | ⟨k, h, -⟩ <;> cases t <;> cases h <;> rfl

/-- A variable without a bound of its own stands for every kind. -/
theorem meets_unbounded (g : Agreement) (id : String) (k : Kind) :
    Meets g (var { id }) (concrete k) :=
  .varKind rfl (Kind.mem_all k) (g.allows_refl k)

end Ty

namespace Match

/-! ## What a match records -/

/-- The kind is recorded for the variable at the position. -/
def Recorded (g : Agreement) (expected given : List Ty) (id : String) (i : Nat) (k : Kind) : Prop :=
  ∃ e t v, expected[i]? = some e ∧ given[i]? = some t ∧ e.Records g t v (some k) ∧ v.id = id

variable {g : Agreement} {function : String} {expected given : List Ty} {m : Match} {id : String}

theorem mem_kindsFor_iff {ds : List Demand} {i : Nat} {k : Kind} :
    (i, k) ∈ kindsFor ds id ↔ ⟨id, i, some k⟩ ∈ ds := by
  rw [kindsFor, List.mem_filterMap]
  constructor
  · rintro ⟨⟨id', j, k'⟩, hd, h⟩
    split at h
    · next hid =>
      obtain ⟨k'', rfl, h⟩ := Option.map_eq_some_iff.mp h
      cases h
      cases hid
      exact hd
    · cases h
  · intro h
    exact ⟨_, h, by simp⟩

theorem demands_eq_filterMap (s : Nat) (fs : List Fit) :
    demands s fs = (fs.zipIdx s).filterMap fun p => p.1.demand.map fun d => ⟨d.1.id, p.2, d.2⟩ := by
  induction fs generalizing s with
  | nil => rfl
  | cons f fs ih =>
    rw [demands, List.zipIdx_cons, List.filterMap_cons, ih]
    cases f.demand <;> rfl

theorem mem_demands_iff {fs : List Fit} {i : Nat} {k : Option Kind} :
    ⟨id, i, k⟩ ∈ demands 0 fs ↔ ∃ f v, fs[i]? = some f ∧ f.demand = some (v, k) ∧ v.id = id := by
  rw [demands_eq_filterMap, List.mem_filterMap]
  constructor
  · rintro ⟨⟨f, j⟩, hf, h⟩
    obtain ⟨⟨v, k⟩, hdemand, h⟩ := Option.map_eq_some_iff.mp h
    cases h
    exact ⟨f, v, List.mk_mem_zipIdx_iff_getElem?.mp hf, hdemand, rfl⟩
  · rintro ⟨f, v, hf, hdemand, rfl⟩
    exact ⟨(f, i), List.mk_mem_zipIdx_iff_getElem?.mpr hf, by simp [hdemand]⟩

theorem ascending_demands (s : Nat) (fs : List Fit) :
    (demands s fs).Pairwise fun c d => c.index < d.index := by
  have hlt : ((fs.zipIdx s).map Prod.snd).Pairwise (· < ·) := by
    rw [List.zipIdx_map_snd]
    exact List.pairwise_lt_range'
  rw [demands_eq_filterMap, List.pairwise_filterMap]
  refine (List.pairwise_map.mp hlt).imp fun h c hc d hd => ?_
  obtain ⟨-, -, rfl⟩ := Option.map_eq_some_iff.mp hc
  obtain ⟨-, -, rfl⟩ := Option.map_eq_some_iff.mp hd
  exact h

/-- Where the positions fit, each type given fits its parameter. -/
theorem exists_fit {fs : List Fit} {i : Nat} {e t : Ty}
    (hfs : (expected.zip given).map (fun p => p.1.fit? g p.2) = fs.map some)
    (he : expected[i]? = some e)
    (ht : given[i]? = some t) : ∃ f, fs[i]? = some f ∧ e.fit? g t = some f := by
  have hp : (expected.zip given)[i]? = some (e, t) := List.getElem?_zip_eq_some.mpr ⟨he, ht⟩
  have hi : ((expected.zip given)[i]?).map (fun p => p.1.fit? g p.2) = (fs[i]?).map some := by
    rw [← List.getElem?_map, hfs, List.getElem?_map]
  rw [hp] at hi
  obtain ⟨f, hf, hfit⟩ := Option.map_eq_some_iff.mp hi.symm
  exact ⟨f, hf, hfit.symm⟩

theorem exists_fit_of_mem {fs : List Fit} {p : Ty × Ty}
    (hfs : (expected.zip given).map (fun p => p.1.fit? g p.2) = fs.map some)
    (hp : p ∈ expected.zip given) :
    ∃ f ∈ fs, p.1.fit? g p.2 = some f := by
  obtain ⟨i, hi⟩ := List.mem_iff_getElem?.mp hp
  obtain ⟨he, ht⟩ := List.getElem?_zip_eq_some.mp hi
  obtain ⟨f, hf, hfit⟩ := exists_fit hfs he ht
  exact ⟨f, List.mem_of_getElem? hf, hfit⟩

theorem exists_fitted {fs : List Fit} {i : Nat} {f : Fit}
    (hfs : (expected.zip given).map (fun p => p.1.fit? g p.2) = fs.map some)
    (hf : fs[i]? = some f) :
    ∃ e t, expected[i]? = some e ∧ given[i]? = some t ∧ e.fit? g t = some f := by
  have hi : ((expected.zip given)[i]?).map (fun p => p.1.fit? g p.2) = (fs[i]?).map some := by
    rw [← List.getElem?_map, hfs, List.getElem?_map]
  rw [hf] at hi
  obtain ⟨⟨e, t⟩, hp, hfit⟩ := Option.map_eq_some_iff.mp hi
  exact ⟨e, t, (List.getElem?_zip_eq_some.mp hp).1, (List.getElem?_zip_eq_some.mp hp).2, hfit⟩

/-- Where the positions fit, the kinds reconciled are those recorded. -/
theorem mem_kindsFor_demands_iff {fs : List Fit} {i : Nat} {k : Kind}
    (hfs : (expected.zip given).map (fun p => p.1.fit? g p.2) = fs.map some) :
    (i, k) ∈ kindsFor (demands 0 fs) id ↔ Recorded g expected given id i k := by
  rw [mem_kindsFor_iff, mem_demands_iff]
  constructor
  · rintro ⟨f, v, hf, hdemand, hid⟩
    obtain ⟨e, t, he, ht, hfit⟩ := exists_fitted hfs hf
    exact ⟨e, t, v, he, ht, (Ty.demand_eq_some_iff_records hfit).mp hdemand, hid⟩
  · rintro ⟨e, t, v, he, ht, h, hid⟩
    obtain ⟨f, hf, hfit⟩ := exists_fit hfs he ht
    exact ⟨f, v, hf, (Ty.demand_eq_some_iff_records hfit).mpr h, hid⟩

/-- All kinds that a match records for a variable may stand in for the first one. -/
theorem exists_first_recorded {i : Nat} {a : Kind} (h : run g function expected given = .ok m)
    (ha : Recorded g expected given id i a) : ∃ first c, Recorded g expected given id first c ∧
      ∀ j b, Recorded g expected given id j b → first ≤ j ∧ g.Allows b c := by
  obtain ⟨-, fs, hfs, hclash⟩ := exists_fits_of_run h
  simp only [← mem_kindsFor_demands_iff hfs] at ha ⊢
  have hclash := hclash _ (mem_kindsFor_iff.mp ha)
  have hascending := pairwise_kindsFor (ascending_demands 0 fs) id
  unfold Clashes at hclash
  cases hkinds : kindsFor (demands 0 fs) id with
  | nil => rw [hkinds] at ha; cases ha
  | cons p ps =>
    rw [hkinds] at hclash hascending
    refine ⟨p.1, p.2, List.mem_cons_self, fun j b hb => ⟨?_, ?_⟩⟩
    · rcases List.mem_cons.mp hb with rfl | hb
      · exact Nat.le_refl _
      · exact Nat.le_of_lt (List.rel_of_pairwise_cons hascending hb)
    · exact Decidable.byContradiction fun hnot => hclash ⟨p, rfl, (j, b), hb, hnot⟩

/-! ## One variable for every parameter -/

/-- The kinds given agree with the first of them. -/
def Heads (g : Agreement) (ks : List Kind) : Prop := ∀ k ∈ ks, ∀ first ∈ ks.head?, g.Allows k first

theorem not_clashes_iff {ds : List Demand} :
    ¬ Clashes g ds id ↔ Heads g ((kindsFor ds id).map Prod.snd) := by
  rw [clashes_iff, not_not]
  simp only [Heads, List.all_eq_true, Option.all_eq_true, decide_eq_true_eq, Option.mem_def]

variable {v : TypeVar}

/-- What the positions record when one variable is expected at each. -/
theorem kinds_demands_same {fs : List Fit}
    (hfs : given.map (fun t => (Ty.var v).fit? g t) = fs.map some) (s : Nat) :
    (kindsFor (demands s fs) v.id).map Prod.snd = given.filterMap (fun t => t.inner.kind?) ∧
      ∀ d ∈ demands s fs, d.id = v.id := by
  induction given generalizing fs s with
  | nil =>
    cases fs with
    | nil => exact ⟨rfl, List.forall_mem_nil _⟩
    | cons => cases hfs
  | cons t given ih =>
    cases fs with
    | nil => cases hfs
    | cons f fs =>
      obtain ⟨hf, hfs⟩ : (Ty.var v).fit? g t = some f ∧ _ := List.cons.inj hfs
      rw [Ty.fit?] at hf
      obtain ⟨hkinds, hids⟩ := ih hfs (s + 1)
      rw [demands, (Ty.fitVar?_eq_some hf).1]
      refine ⟨?_, List.forall_mem_cons.mpr ⟨rfl, hids⟩⟩
      rw [List.filterMap_cons, ← hkinds]
      cases hkind : t.inner.kind? <;> simp [kindsFor]

theorem not_clashes_demands_same_iff {fs : List Fit}
    (hfs : given.map (fun t => (Ty.var v).fit? g t) = fs.map some) :
    (∀ d ∈ demands 0 fs, ¬ Clashes g (demands 0 fs) d.id) ↔
      Heads g (given.filterMap fun t => t.inner.kind?) := by
  obtain ⟨hkinds, hids⟩ := kinds_demands_same hfs 0
  rw [← hkinds]
  constructor
  · intro h k hk
    obtain ⟨p, hp, -⟩ := List.mem_map.mp hk
    exact not_clashes_iff.mp (h _ (mem_kindsFor_iff.mp hp)) k hk
  · intro h d hd
    rw [hids d hd]
    exact not_clashes_iff.mpr h

theorem zip_same : (given.map fun _ => Ty.var v).zip given = given.map fun t => (.var v, t) := by
  induction given with
  | nil => rfl
  | cons t given ih => rw [List.map_cons, List.zip_cons_cons, ih, List.map_cons]

/-- With one variable for every parameter, types are matched just when each meets it and their kinds
agree with the first of them. -/
theorem exists_run_same_iff : (∃ m, run g function (given.map fun _ => .var v) given = .ok m) ↔
    (∀ t ∈ given, Ty.Meets g (.var v) t) ∧ Heads g (given.filterMap fun t => t.inner.kind?) := by
  constructor
  · rintro ⟨m, hm⟩
    obtain ⟨-, fs, hfs, hclash⟩ := exists_fits_of_run hm
    rw [zip_same, List.map_map] at hfs
    refine ⟨fun t ht => Ty.fit?_isSome_iff.mp ?_, (not_clashes_demands_same_iff hfs).mp hclash⟩
    have hmem : (Ty.var v).fit? g t ∈ fs.map some := hfs ▸ List.mem_map_of_mem ht
    obtain ⟨f, -, hf⟩ := List.mem_map.mp hmem
    exact Option.isSome_of_eq_some hf.symm
  · rintro ⟨hmeets, hheads⟩
    have hps : ∀ p ∈ given.map fun t => (Ty.var v, t), p.1.Meets g p.2 :=
      List.forall_mem_map.mpr hmeets
    obtain ⟨fs, hfs⟩ := exists_fits function hps 0
    have hfs := fits_eq_ok_iff.mp hfs
    have hclash := (not_clashes_demands_same_iff (List.map_map ▸ hfs)).mpr hheads
    obtain ⟨m, hm, -⟩ := exists_run function (List.forall_mem_map.mpr fun _ _ => rfl)
      (fun t ht => Ty.isGround_of_meets_var (hmeets t ht)) (List.length_map _)
        (zip_same ▸ hfs) hclash
    exact ⟨m, hm⟩

/-- With a variable that stands for anything, kinds are matched just when they agree with the first
of them. -/
theorem exists_run_kinds_iff {ks : List Kind} :
    (∃ m, run g function (ks.map fun _ => .var { id }) (ks.map .concrete) = .ok m) ↔
      Heads g ks := by
  have h : (∃ m, run g function ((ks.map Ty.concrete).map fun _ => .var { id })
      (ks.map .concrete) = .ok m) ↔ _ :=
    exists_run_same_iff
  have hmeets : ∀ t ∈ ks.map Ty.concrete, Ty.Meets g (.var { id }) t :=
    List.forall_mem_map.mpr fun k _ => Ty.meets_unbounded g id k
  have hkinds : (ks.map Ty.concrete).filterMap (fun t => t.inner.kind?) = ks := by
    rw [List.filterMap_map]
    exact List.filterMap_some
  rw [List.map_map, hkinds, and_iff_right hmeets] at h
  exact h

theorem recorded_kinds (ks : List Kind) {i : Nat} {k : Kind} (h : ks[i]? = some k) :
    Recorded g (ks.map fun _ => .var { id }) (ks.map .concrete) id i k := by
  have hexpected : (ks.map fun _ => Ty.var { id })[i]? = some (.var { id }) := by
    rw [List.getElem?_map, h]; rfl
  have hgiven : (ks.map Ty.concrete)[i]? = some (.concrete k) := by rw [List.getElem?_map, h]; rfl
  exact ⟨_, _, { id }, hexpected, hgiven, .here (Ty.meets_unbounded g id k), rfl⟩

/-! ## Tables -/

/-- The kinds are recorded for one variable in some match. -/
def Accepted (g : Agreement) (a b : Kind) : Prop :=
  ∃ function expected given m id i j, run g function expected given = .ok m ∧
    Recorded g expected given id i a ∧ Recorded g expected given id j b

variable {a b : Kind}

/-- Two kinds are accepted together just when both may stand in for a third. -/
theorem accepted_iff : Accepted g a b ↔ ∃ c, g.Allows a c ∧ g.Allows c b := by
  constructor
  · rintro ⟨function, expected, given, m, id, i, j, hm, ha, hb⟩
    obtain ⟨first, c, -, hfirst⟩ := exists_first_recorded hm ha
    exact ⟨c, (hfirst i a ha).2, (hfirst j b hb).2.symm⟩
  · rintro ⟨c, ha, hb⟩
    have hheads : Heads g [c, a, b] := by simp [Heads, g.allows_refl, ha, hb.symm]
    obtain ⟨m, hm⟩ : ∃ m,
      run g "f" ([c, a, b].map fun _ => .var { id := "T" }) ([c, a, b].map .concrete) = .ok m :=
      exists_run_kinds_iff.mpr hheads
    exact ⟨_, _, _, m, "T", 1, 2, hm, recorded_kinds [c, a, b] rfl, recorded_kinds [c, a, b] rfl⟩

theorem allows_of_accepted_iff : (∀ a b, Accepted g a b → g.Allows a b) ↔ g.Transitive := by
  simp only [accepted_iff]
  exact ⟨fun h a b c hab hbc => h a c ⟨b, hab, hbc⟩, fun h a b ⟨c, hac, hcb⟩ => h a c b hac hcb⟩

theorem heads_iff_of_transitive (hg : g.Transitive) {ks : List Kind} :
    Heads g ks ↔ ∀ a ∈ ks, ∀ b ∈ ks, g.Allows a b := by
  constructor
  · intro h a ha b hb
    cases ks with
    | nil => cases ha
    | cons first ks => exact hg a first b (h a ha first rfl) (h b hb first rfl).symm
  · exact fun h a ha first hfirst => h a ha first (List.mem_of_mem_head? hfirst)

/-- The order of the arguments makes no difference just when the table is transitive. -/
theorem exists_run_perm_iff :
    (∀ (function : String) (v : TypeVar) (given given' : List Ty), given.Perm given' →
    ((∃ m, run g function (given.map fun _ => .var v) given = .ok m) ↔
      ∃ m, run g function (given'.map fun _ => .var v) given' = .ok m)) ↔ g.Transitive := by
  constructor
  · intro h a b c hab hbc
    have hperm : ([b, a, c].map Ty.concrete).Perm ([a, b, c].map Ty.concrete) :=
      (List.Perm.swap a b [c]).map _
    have hheads : Heads g [b, a, c] := by simp [Heads, g.allows_refl, hab, hbc.symm]
    have hrun := (h "f" { id := "T" } _ _ hperm).mp (exists_run_kinds_iff.mpr hheads)
    have hheads : Heads g [a, b, c] := exists_run_kinds_iff.mp hrun
    exact (hheads c (by simp) a rfl).symm
  · intro hg function v given given' hperm
    have hkinds := hperm.filterMap fun t => t.inner.kind?
    simp only [exists_run_same_iff, heads_iff_of_transitive hg, hperm.mem_iff, hkinds.mem_iff]

/-- What a match accepts for one variable. All kinds given may stand in for the first one; two kinds
are accepted together just when both may stand in for a third; hence just over transitive tables any
two may stand in for one another, and the order of the arguments makes no difference. -/
theorem run_accord_iff (g : Agreement) :
    (∀ function expected given m, run g function expected given = .ok m →
      ∀ id i a, Recorded g expected given id i a → ∃ first c, Recorded g expected given id first c ∧
        ∀ j b, Recorded g expected given id j b → first ≤ j ∧ g.Allows b c) ∧
      (∀ a b, Accepted g a b ↔ ∃ c, g.Allows a c ∧ g.Allows c b) ∧
      ((∀ a b, Accepted g a b → g.Allows a b) ↔ g.Transitive) ∧
      ((∀ (function : String) (v : TypeVar) (given given' : List Ty), given.Perm given' →
        ((∃ m, run g function (given.map fun _ => .var v) given = .ok m) ↔
          ∃ m, run g function (given'.map fun _ => .var v) given' = .ok m)) ↔ g.Transitive) :=
  ⟨fun _ _ _ _ hm _ _ _ ha => exists_first_recorded hm ha, fun _ _ => accepted_iff,
    allows_of_accepted_iff, exists_run_perm_iff⟩

/-- Where days and moments alone stand in for one another, days and times of day are not accepted
together. -/
theorem run_accord_iff_days :
    let g : Agreement := ⟨[(.date, .datetime)]⟩
    Accepted g .date .datetime ∧ ¬ Accepted g .date .time := by
  intro g
  obtain ⟨-, haccepted, hallows, -⟩ := run_accord_iff g
  have hg : g.Transitive := by decide
  exact ⟨(haccepted _ _).mpr ⟨.date, by decide, by decide⟩,
    fun h => absurd (hallows.mpr hg _ _ h) (by decide)⟩

/-- Behind a moment a day and a time of day pass, though neither may stand in for the other, and
behind the day the time of day does not. -/
theorem run_accords_not :
    let g : Agreement := ⟨[(.datetime, .date), (.datetime, .time)]⟩
    let T : Ty := .var { id := "T" }
    let given : List Ty := [.concrete .datetime, .concrete .date, .concrete .time]
    (∃ m, run g "f" [T, T, T] given = .ok m) ∧ Recorded g [T, T, T] given "T" 1 .date ∧
      Recorded g [T, T, T] given "T" 2 .time ∧ ¬ g.Allows .date .time ∧
      run g "f" [T, T, T] [.concrete .date, .concrete .datetime, .concrete .time] =
        .error (.conflict "f" "T" ["Date", "DateTime", "Time"] [.count 0, .count 1, .count 2]) := by
  intro g T given
  exact ⟨⟨_, rfl⟩, recorded_kinds [.datetime, .date, .time] rfl,
    recorded_kinds [.datetime, .date, .time] rfl, by decide, rfl⟩

end Match

end SqlDraft
