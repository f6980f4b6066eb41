import Mathlib.Data.List.Forall2
import Mathlib.Data.List.Perm.Subperm
import SqlDraft.Table

/-! When two types are the same. Their structure has to be one, and so do the variables in it, one
by one; bounds of variables are compared by their number and by whether the first are all among the
second. Where no bound repeats a kind this is having the same kinds, and sameness is an equivalence;
a bound with a repeated kind goes into larger ones, which do not go into it
(`Ty.same_iff_alike`). -/

namespace SqlDraft

/-! ## Variables -/

namespace TypeVar

variable {u v w : TypeVar}

/-- The variables have one name and stand for the same kinds. -/
def Alike (v w : TypeVar) : Prop := v.id = w.id ∧ ∀ k, k ∈ v.bound ↔ k ∈ w.bound

theorem same_iff : v.same w = true ↔
    v.id = w.id ∧ v.bound.length = w.bound.length ∧ v.bound ⊆ w.bound := by
  rw [same, Bool.and_eq_true, Bool.and_eq_true, beq_iff_eq, beq_iff_eq, List.all_eq_true, and_assoc]
  simp only [List.contains_iff_mem]
  rfl

theorem same_refl (v : TypeVar) : v.same v = true :=
  same_iff.mpr ⟨rfl, rfl, List.Subset.refl _⟩

theorem same_trans (h : u.same v = true) (h' : v.same w = true) : u.same w = true := by
  obtain ⟨hid, hlength, hsubset⟩ := same_iff.mp h
  obtain ⟨hid', hlength', hsubset'⟩ := same_iff.mp h'
  exact same_iff.mpr ⟨hid.trans hid', hlength.trans hlength', List.Subset.trans hsubset hsubset'⟩

/-- Of what is the same one way, just what stands for the same kinds is the same the other way
too. -/
theorem same_swap_iff (h : v.same w = true) : w.same v = true ↔ v.Alike w := by
  obtain ⟨hid, hlength, hsubset⟩ := same_iff.mp h
  rw [same_iff]
  constructor
  · rintro ⟨-, -, hsubset'⟩
    exact ⟨hid, fun k => ⟨@hsubset k, @hsubset' k⟩⟩
  · rintro ⟨-, hkinds⟩
    exact ⟨hid.symm, hlength.symm, fun k => (hkinds k).mpr⟩

/-- Kinds that do not repeat and are all among as many others are these others, in some order. -/
theorem same_iff_alike_of_nodup (hv : v.bound.Nodup) :
    v.same w = true ↔ w.bound.Nodup ∧ v.Alike w := by
  rw [same_iff]
  constructor
  · rintro ⟨hid, hlength, hsubset⟩
    have hperm := (List.subperm_of_subset hv hsubset).perm_of_length_le (Nat.le_of_eq hlength.symm)
    exact ⟨hperm.nodup_iff.mp hv, hid, fun k => hperm.mem_iff⟩
  · rintro ⟨hw, hid, hkinds⟩
    have hperm := (List.perm_ext_iff_of_nodup hv hw).mpr hkinds
    exact ⟨hid, hperm.length_eq, hperm.subset⟩

/-- A variable for two kinds or more has another that it is the same as one way only. -/
theorem exists_same_one_way (h : 2 ≤ v.bound.length) : ∃ w : TypeVar, v.same w ≠ w.same v := by
  obtain ⟨id, bound⟩ := v
  match bound, h with
  | k :: k' :: ks, _ =>
    by_cases hone : ∀ j ∈ k' :: ks, j = k
    · -- one kind over and over goes into that kind and another
      obtain ⟨j, hj⟩ : ∃ j : Kind, j ≠ k := by
        cases k with
        | boolean => exact ⟨.number, by decide⟩
        | _ => exact ⟨.boolean, by decide⟩
      have hk : k ∈ k' :: ks := hone k' List.mem_cons_self ▸ List.mem_cons_self
      have hinto : same ⟨id, k :: k' :: ks⟩ ⟨id, j :: k' :: ks⟩ = true := by
        refine same_iff.mpr ⟨rfl, rfl, List.cons_subset.mpr ⟨List.mem_cons_of_mem _ hk, ?_⟩⟩
        exact List.subset_cons_self _ _
      have hback : same ⟨id, j :: k' :: ks⟩ ⟨id, k :: k' :: ks⟩ ≠ true := fun hsame => by
        rcases List.mem_cons.mp ((same_iff.mp hsame).2.2 List.mem_cons_self) with hmem | hmem
        · exact hj hmem
        · exact hj (hone j hmem)
      exact ⟨_, fun heq => hback (heq ▸ hinto)⟩
    · -- one of several kinds, as often as there are kinds, goes into all of them
      obtain ⟨j, hmem, hj⟩ : ∃ j ∈ k' :: ks, j ≠ k := by
        by_contra hnone
        exact hone fun j hj => by_contra fun hne => hnone ⟨j, hj, hne⟩
      have hback : same ⟨id, List.replicate (ks.length + 2) k⟩ ⟨id, k :: k' :: ks⟩ = true := by
        refine same_iff.mpr ⟨rfl, List.length_replicate, fun i hi => ?_⟩
        rw [List.eq_of_mem_replicate hi]
        exact List.mem_cons_self
      have hinto : same ⟨id, k :: k' :: ks⟩ ⟨id, List.replicate (ks.length + 2) k⟩ ≠ true :=
        fun hsame =>
        hj (List.eq_of_mem_replicate ((same_iff.mp hsame).2.2 (List.mem_cons_of_mem _ hmem)))
      exact ⟨_, fun heq => hinto (heq ▸ hback)⟩

theorem same_symm_of_length_le (h : v.bound.length ≤ 1) (w : TypeVar) : v.same w = w.same v := by
  obtain ⟨id, bound⟩ := v
  obtain ⟨id', bound'⟩ := w
  rw [Bool.eq_iff_iff, same_iff, same_iff]
  match bound, bound', h with
  | [], [], _ => simp [eq_comm]
  | [], _ :: _, _ => simp
  | [k], [], _ => simp
  | [k], [k'], _ => simp [eq_comm]
  | [k], _ :: _ :: _, _ => simp

/-- Sameness with a variable goes both ways, whatever the other, just when it stands for one kind at
most. -/
theorem same_symm_iff (v : TypeVar) : (∀ w, v.same w = w.same v) ↔ v.bound.length ≤ 1 := by
  constructor
  · intro h
    by_contra hmany
    obtain ⟨w, hw⟩ := exists_same_one_way (by omega : 2 ≤ v.bound.length)
    exact hw (h w)
  · exact same_symm_of_length_le

end TypeVar

namespace Ty

/-! ## Structure -/

mutual

/-- The type with all its variables made one. -/
def skeleton : Ty → Ty
  | any => any
  | concrete k => concrete k
  | collection t => collection t.skeleton
  | union ts => union (skeletons ts)
  | var _ => var ⟨"", []⟩

def skeletons : List Ty → List Ty
  | [] => []
  | t :: ts => t.skeleton :: skeletons ts

end

mutual

/-- The variables of the type, from left to right. -/
def vars : Ty → List TypeVar
  | any => []
  | concrete _ => []
  | collection t => t.vars
  | union ts => varsAll ts
  | var v => [v]

def varsAll : List Ty → List TypeVar
  | [] => []
  | t :: ts => t.vars ++ varsAll ts

end

/-- The types have one structure, and alike variables in the same places. -/
def Alike (s t : Ty) : Prop := s.skeleton = t.skeleton ∧ List.Forall₂ TypeVar.Alike s.vars t.vars

/-- No variable of the type repeats a kind in its bound. -/
def Distinct (t : Ty) : Prop := ∀ v ∈ t.vars, v.bound.Nodup

instance (t : Ty) : Decidable t.Distinct :=
  inferInstanceAs (Decidable (∀ v ∈ t.vars, v.bound.Nodup))

mutual

theorem length_vars_skeleton : ∀ t : Ty, t.skeleton.vars.length = t.vars.length
  | any => rfl
  | concrete _ => rfl
  | collection t => length_vars_skeleton t
  | union ts => length_varsAll_skeletons ts
  | var _ => rfl

theorem length_varsAll_skeletons :
    ∀ ts : List Ty, (varsAll (skeletons ts)).length = (varsAll ts).length
  | [] => rfl
  | t :: ts => by
    rw [skeletons, varsAll, varsAll, List.length_append, List.length_append, length_vars_skeleton t,
      length_varsAll_skeletons ts]

end

/-- As many variables stand in two types of one structure. -/
theorem length_vars_eq {s t : Ty} (h : s.skeleton = t.skeleton) :
    s.vars.length = t.vars.length := by
  rw [← length_vars_skeleton s, h, length_vars_skeleton t]

theorem forall₂_append_iff {α : Type} {R : α → α → Prop} {as bs cs ds : List α}
    (h : as.length = bs.length) :
    List.Forall₂ R (as ++ cs) (bs ++ ds) ↔ List.Forall₂ R as bs ∧ List.Forall₂ R cs ds := by
  induction as generalizing bs with
  | nil =>
    cases bs with
    | nil => simp
    | cons => cases h
  | cons a as ih =>
    cases bs with
    | nil => cases h
    | cons b bs => simp [ih (Nat.succ.inj h), and_assoc]

mutual

/-- Types are the same when their structure is, and their variables one by one are. -/
theorem same_iff : ∀ {s t : Ty}, s.same t = true ↔
    s.skeleton = t.skeleton ∧ List.Forall₂ (fun v w => v.same w = true) s.vars t.vars
  | any, t => by cases t <;> simp [same, skeleton, vars]
  | concrete _, t => by cases t <;> simp [same, skeleton, vars]
  | collection s, t => by
    cases t with
    | collection t => simpa [same, skeleton, vars] using same_iff
    | _ => simp [same, skeleton]
  | union ss, t => by
    cases t with
    | union ts => simpa [same, skeleton, vars] using sameAll_iff
    | _ => simp [same, skeleton]
  | var _, t => by cases t <;> simp [same, skeleton, vars]

theorem sameAll_iff : ∀ {ss ts : List Ty}, sameAll ss ts = true ↔
    skeletons ss = skeletons ts ∧
    List.Forall₂ (fun v w => v.same w = true) (varsAll ss) (varsAll ts)
  | [], [] => by simp [sameAll, skeletons, varsAll]
  | [], _ :: _ => by simp [sameAll, skeletons]
  | _ :: _, [] => by simp [sameAll, skeletons]
  | s :: ss, t :: ts => by
    rw [sameAll, Bool.and_eq_true, same_iff, sameAll_iff, skeletons, skeletons, List.cons.injEq,
      varsAll, varsAll]
    constructor
    · rintro ⟨⟨hfirst, hvars⟩, hrest, hvarsAll⟩
      exact ⟨⟨hfirst, hrest⟩, (forall₂_append_iff (length_vars_eq hfirst)).mpr ⟨hvars, hvarsAll⟩⟩
    · rintro ⟨⟨hfirst, hrest⟩, happend⟩
      obtain ⟨hvars, hvarsAll⟩ := (forall₂_append_iff (length_vars_eq hfirst)).mp happend
      exact ⟨⟨hfirst, hvars⟩, hrest, hvarsAll⟩

end

/-! ## Sameness of types -/

theorem forall₂_trans {α : Type} {R : α → α → Prop} (hR : ∀ a b c, R a b → R b c → R a c) :
    ∀ {as bs cs : List α}, List.Forall₂ R as bs → List.Forall₂ R bs cs → List.Forall₂ R as cs
  | _, _, _, .nil, .nil => .nil
  | _, _, _, .cons h hs, .cons h' hs' => .cons (hR _ _ _ h h') (forall₂_trans hR hs hs')

theorem same_refl (t : Ty) : t.same t = true :=
  same_iff.mpr ⟨rfl, List.forall₂_same.mpr fun v _ => v.same_refl⟩

theorem same_trans {s t u : Ty} (h : s.same t = true) (h' : t.same u = true) : s.same u = true := by
  obtain ⟨hskeleton, hvars⟩ := same_iff.mp h
  obtain ⟨hskeleton', hvars'⟩ := same_iff.mp h'
  exact same_iff.mpr ⟨hskeleton.trans hskeleton',
    forall₂_trans (R := fun (v w : TypeVar) => v.same w = true)
      (fun _ _ _ => TypeVar.same_trans) hvars hvars'⟩

theorem same_swap_iff {s t : Ty} (h : s.same t = true) : t.same s = true ↔ s.Alike t := by
  obtain ⟨hskeleton, hvars⟩ := same_iff.mp h
  constructor
  · intro h'
    have hback := (same_iff.mp h').2.flip
    exact ⟨hskeleton, List.Forall₂.mp
      (fun _ _ hsame => (TypeVar.same_swap_iff hsame).mp) hvars hback⟩
  · rintro ⟨-, halike⟩
    refine same_iff.mpr ⟨hskeleton.symm, List.Forall₂.flip ?_⟩
    exact List.Forall₂.mp (fun _ _ hsame => (TypeVar.same_swap_iff hsame).mpr) hvars halike

theorem forall₂_same_iff {vs ws : List TypeVar} (h : ∀ v ∈ vs, v.bound.Nodup) :
    List.Forall₂ (fun v w => v.same w = true) vs ws ↔
      (∀ w ∈ ws, w.bound.Nodup) ∧ List.Forall₂ TypeVar.Alike vs ws := by
  induction vs generalizing ws with
  | nil => cases ws <;> simp
  | cons v vs ih =>
    obtain ⟨hv, hrest⟩ := List.forall_mem_cons.mp h
    cases ws with
    | nil => simp
    | cons w ws =>
      rw [List.forall₂_cons, List.forall₂_cons, TypeVar.same_iff_alike_of_nodup hv, ih hrest,
        List.forall_mem_cons, and_and_and_comm]

/-- Where no bound repeats a kind, types are the same just when they are alike and none does in the
second. -/
theorem same_iff_of_distinct {s t : Ty} (hs : s.Distinct) :
    s.same t = true ↔ t.Distinct ∧ s.Alike t := by
  rw [same_iff, forall₂_same_iff hs, Alike, Distinct, and_left_comm]

theorem same_symm_of_distinct {s t : Ty} (hs : s.Distinct) (ht : t.Distinct) :
    s.same t = t.same s := by
  rw [Bool.eq_iff_iff]
  constructor
  · intro h
    exact (same_swap_iff h).mpr ((same_iff_of_distinct hs).mp h).2
  · intro h
    exact (same_swap_iff h).mpr ((same_iff_of_distinct ht).mp h).2

end Ty

theorem Column.same_iff {c d : Column} :
    c.same d = true ↔ c.table = d.table ∧ c.name = d.name ∧ d.data.same c.data = true := by
  rw [same, Bool.and_eq_true, Bool.and_eq_true, beq_iff_eq, beq_iff_eq, and_assoc, eq_comm,
    @eq_comm _ d.name]
  rfl

namespace Ty

/-- Sameness of types is an equivalence where no bound repeats a kind, and there the same types are
those of one structure whose variables have one name and the same kinds. It is reflexive and
transitive everywhere; of types that are the same one way just the alike ones are the same the other
way, and a variable for two kinds or more is the same as some other one way only. So columns without
repeated kinds are the same both ways or neither. -/
theorem same_iff_alike (s t : Ty) :
    s.same s = true ∧
    (∀ u : Ty, s.same t = true → t.same u = true → s.same u = true) ∧
    (s.Distinct → t.Distinct → (s.same t = true ↔ s.Alike t) ∧ s.same t = t.same s) ∧
    (s.same t = true → (t.same s = true ↔ s.Alike t)) ∧
    (∀ v : TypeVar, (∀ w, (var v).same (var w) = (var w).same (var v)) ↔ v.bound.length ≤ 1) ∧
    ∀ c d : Column, c.data.Distinct → d.data.Distinct → c.same d = d.same c := by
  refine ⟨same_refl s, fun _ => same_trans, fun hs ht => ⟨?_, same_symm_of_distinct hs ht⟩,
    same_swap_iff, TypeVar.same_symm_iff, fun c d hc hd => ?_⟩
  · rw [same_iff_of_distinct hs, and_iff_right ht]
  · rw [Bool.eq_iff_iff, Column.same_iff, Column.same_iff, same_symm_of_distinct hc hd, eq_comm,
      @eq_comm _ c.name]

/-- The bound of a variable is not a matter of order. -/
theorem same_iff_alike_reordered :
    let s := collection (var ⟨"T", [.number, .string]⟩)
    let t := collection (var ⟨"T", [.string, .number]⟩)
    s.Distinct ∧ t.Distinct ∧ s.Alike t ∧ t.same s = true := by
  intro s t
  have hs : s.Distinct := by decide
  have ht : t.Distinct := by decide
  obtain ⟨halike, hsymm⟩ := (same_iff_alike s t).2.2.1 hs ht
  have hsame : s.same t = true := by decide
  exact ⟨hs, ht, halike.mp hsame, hsymm ▸ hsame⟩

/-- A repeated kind goes into two kinds, but these do not go into it; alone, it is not even the same
as the kind once. Columns are no better. -/
theorem same_not_symm :
    let once := var ⟨"T", [.number]⟩
    let twice := var ⟨"T", [.number, .number]⟩
    let mixed := var ⟨"T", [.number, .string]⟩
    let t : Table := ⟨0, "t", none, none⟩
    (twice.same mixed = true ∧ mixed.same twice = false ∧ ¬twice.Alike mixed) ∧
      (once.Alike twice ∧ once.same twice = false) ∧
      (Column.same ⟨t, "x", mixed⟩ ⟨t, "x", twice⟩ = true ∧
        Column.same ⟨t, "x", twice⟩ ⟨t, "x", mixed⟩ = false) := by
  intro once twice mixed t
  have hkinds : ¬twice.Alike mixed := fun h =>
    absurd ((same_swap_iff (by decide)).mpr h) (by decide)
  have halike : once.Alike twice := ⟨rfl, .cons ⟨rfl, by simp⟩ .nil⟩
  exact ⟨⟨by decide, by decide, hkinds⟩, ⟨halike, by decide⟩, by decide, by decide⟩

end Ty

end SqlDraft
