import Mathlib.Data.List.Sort
import SqlDraft.Proofs.Matching.Rematch

/-! The order of the arguments. Positions are met one by one, the first kind given for a variable
decides, and variables are bound in order of their first demand. Where kinds stand in for themselves
alone, none of that shows: parameters and arguments permuted together are matched to the same types,
permuted alike (`Match.run_permuted`). -/

namespace SqlDraft

open Sql

variable {n : Nat} {α β : Type} {σ : Equiv.Perm (Fin n)}

/-! ## Permuted lists -/

/-- The entry of the first list at each place stands in the second where the permutation takes
it. -/
structure Moved (σ : Equiv.Perm (Fin n)) (l l' : List α) : Prop where
  length : l.length = n
  length' : l'.length = n
  getElem? : ∀ i : Fin n, l'[(σ i : Nat)]? = l[(i : Nat)]?

namespace Moved

variable {l l' l'' : List α} {k k' : List β}

theorem ofFn (a : Fin n → α) (σ : Equiv.Perm (Fin n)) :
    Moved σ (List.ofFn a) (List.ofFn (a ∘ σ.symm)) where
  length := List.length_ofFn
  length' := List.length_ofFn
  getElem? i := by simp

theorem exists_of_length (h : l.length = n) (σ : Equiv.Perm (Fin n)) : ∃ l', Moved σ l l' := by
  subst h
  have hmoved := Moved.ofFn l.get σ
  rw [List.ofFn_get] at hmoved
  exact ⟨_, hmoved⟩

theorem symm (h : Moved σ l l') : Moved σ.symm l' l where
  length := h.length'
  length' := h.length
  getElem? i := by rw [← h.getElem?, σ.apply_symm_apply]

theorem unique (h : Moved σ l l') (h' : Moved σ l l'') : l' = l'' := by
  refine List.ext_getElem? fun i => ?_
  by_cases hi : i < n
  · rw [← h.symm.getElem? ⟨i, hi⟩, ← h'.symm.getElem? ⟨i, hi⟩]
  · rw [List.getElem?_eq_none (by have := h.length'; omega),
      List.getElem?_eq_none (by have := h'.length'; omega)]

theorem map (h : Moved σ l l') (f : α → β) : Moved σ (l.map f) (l'.map f) where
  length := by rw [List.length_map, h.length]
  length' := by rw [List.length_map, h.length']
  getElem? i := by rw [List.getElem?_map, h.getElem?, List.getElem?_map]

theorem zip (h : Moved σ l l') (hk : Moved σ k k') : Moved σ (l.zip k) (l'.zip k') where
  length := by simp [h.length, hk.length]
  length' := by simp [h.length', hk.length']
  getElem? i := Option.ext fun p => by
    simp only [List.getElem?_zip_eq_some, h.getElem?, hk.getElem?]

end Moved

namespace Agreement

theorem transitive_strict : strict.Transitive := fun _ _ _ hab hbc =>
  allows_strict_iff.mpr ((allows_strict_iff.mp hab).trans (allows_strict_iff.mp hbc))

end Agreement

/-- Replacing reads only the types that variables are bound to. -/
theorem Ty.substitute_congr {function : String} {b b' : Bindings}
    (h : ∀ id, (b.get? id).map Binding.type = (b'.get? id).map Binding.type) :
    ∀ t : Ty, t.substitute function b = t.substitute function b'
  | .any => rfl
  | .concrete _ => rfl
  | .union _ => rfl
  | .collection t => by rw [Ty.substitute, Ty.substitute, substitute_congr h t]
  | .var v => by
    have hv := h v.id
    rw [Ty.substitute, Ty.substitute]
    cases hb : b.get? v.id <;> cases hb' : b'.get? v.id <;> simp_all

namespace Match

variable {function id : String} {expected given expected' given' : List Ty} {m m' : Match}
    {fs fs' : List Fit}

/-- The second match settles on the types of the first, moved, and binds the same variables to the
same types. The positions of each are those of the first, taken where the permutation takes them and
sorted. -/
structure Relocated (σ : Equiv.Perm (Fin n)) (m m' : Match) : Prop where
  types : Moved σ m.types m'.types
  mem_iff : ∀ id, id ∈ m'.bindings ↔ id ∈ m.bindings
  type_eq : ∀ id b b', m.bindings.get? id = some b → m'.bindings.get? id = some b' →
    b'.type = b.type
  indices_eq : ∀ id b b', m.bindings.get? id = some b → m'.bindings.get? id = some b' →
    ∃ js : List (Fin n),
    b.indices = js.map Fin.val ∧ b'.indices = (js.map fun j => (σ j : Nat)).mergeSort

/-! ## Demands of permuted positions -/

section

variable (h : Moved σ fs fs')

include h

theorem mem_demands_moved_iff {i : Fin n} {k : Option Kind} :
    ⟨id, (σ i : Nat), k⟩ ∈ demands 0 fs' ↔ ⟨id, (i : Nat), k⟩ ∈ demands 0 fs := by
  rw [mem_demands_iff, mem_demands_iff, h.getElem?]

omit h in
theorem index_lt_of_mem_demands {d : Demand} (hd : d ∈ demands 0 fs) : d.index < fs.length := by
  obtain ⟨f, v, hf, -⟩ := mem_demands_iff.mp hd
  exact (List.getElem?_eq_some_iff.mp hf).1

/-- Up to their positions the demands are the same. -/
theorem exists_demand_moved_iff {k : Option Kind} :
    (∃ i, ⟨id, i, k⟩ ∈ demands 0 fs') ↔ ∃ i, ⟨id, i, k⟩ ∈ demands 0 fs := by
  constructor
  · rintro ⟨i, hd⟩
    have hi : i < n := h.length' ▸ index_lt_of_mem_demands hd
    refine ⟨σ.symm ⟨i, hi⟩, (mem_demands_moved_iff h).mp ?_⟩
    rwa [σ.apply_symm_apply]
  · rintro ⟨i, hd⟩
    have hi : i < n := h.length ▸ index_lt_of_mem_demands hd
    exact ⟨σ ⟨i, hi⟩, (mem_demands_moved_iff h (i := ⟨i, hi⟩)).mpr hd⟩

theorem mem_ids_moved_iff : id ∈ (demands 0 fs').map Demand.id ↔
    id ∈ (demands 0 fs).map Demand.id := by
  have hiff {fs : List Fit} : id ∈ (demands 0 fs).map Demand.id ↔
      ∃ k i, ⟨id, i, k⟩ ∈ demands 0 fs := by
    rw [List.mem_map]
    exact ⟨fun ⟨d, hd, hid⟩ => ⟨d.kind, d.index, hid ▸ hd⟩, fun ⟨k, i, hd⟩ => ⟨_, hd, rfl⟩⟩
  rw [hiff, hiff]
  exact exists_congr fun k => exists_demand_moved_iff h

theorem mem_kinds_moved_iff {k : Kind} :
    k ∈ (kindsFor (demands 0 fs') id).map Prod.snd ↔
      k ∈ (kindsFor (demands 0 fs) id).map Prod.snd := by
  have hiff {fs : List Fit} : k ∈ (kindsFor (demands 0 fs) id).map Prod.snd ↔
      ∃ i, ⟨id, i, some k⟩ ∈ demands 0 fs := by
    simp only [List.mem_map, ← mem_kindsFor_iff]
    exact ⟨fun ⟨p, hp, hk⟩ => ⟨p.1, hk ▸ hp⟩, fun ⟨i, hp⟩ => ⟨_, hp, rfl⟩⟩
  rw [hiff, hiff, exists_demand_moved_iff h]

end

/-- Where kinds stand in for themselves alone, kinds do not clash when they are all the same. -/
theorem not_clashes_strict_iff {ds : List Demand} : ¬ Clashes .strict ds id ↔
    ∀ a ∈ (kindsFor ds id).map Prod.snd, ∀ b ∈ (kindsFor ds id).map Prod.snd, a = b := by
  simp only [not_clashes_iff, heads_iff_of_transitive Agreement.transitive_strict,
    Agreement.allows_strict_iff]

theorem head?_eq_of_mem_iff {l l' : List α} (h : ∀ a, a ∈ l' ↔ a ∈ l)
    (hsame : ∀ a ∈ l, ∀ b ∈ l, a = b) :
    l'.head? = l.head? := by
  cases l with
  | nil => rw [List.eq_nil_iff_forall_not_mem.mpr fun a ha => nomatch (h a).mp ha]
  | cons a l =>
    cases l' with
    | nil => exact nomatch (h a).mpr List.mem_cons_self
    | cons b l' =>
      exact congrArg some (hsame b ((h b).mp List.mem_cons_self) a List.mem_cons_self)

/-- Where kinds do not clash, a variable is bound to the same type. -/
theorem type_bindingFor_moved (h : Moved σ fs fs') (hclash : ¬ Clashes .strict (demands 0 fs) id) :
    (bindingFor (demands 0 fs') id).type = (bindingFor (demands 0 fs) id).type := by
  rw [bindingFor, bindingFor, ← List.head?_map, ← List.head?_map]
  exact congrArg Ty.ofKind?
    (head?_eq_of_mem_iff (fun k => mem_kinds_moved_iff h) (not_clashes_strict_iff.mp hclash))

theorem indices_bindingFor_moved (h : Moved σ fs fs') (id : String) : ∃ js : List (Fin n),
    (bindingFor (demands 0 fs) id).indices = js.map Fin.val ∧
      (bindingFor (demands 0 fs') id).indices = (js.map fun j => (σ j : Nat)).mergeSort := by
  have hlt {fs : List Fit} (hlength : fs.length = n) :
      ∀ i ∈ (bindingFor (demands 0 fs) id).indices, i < n := by
    intro i hi
    obtain ⟨k, hd⟩ := mem_indices_bindingFor_iff.mp hi
    exact hlength ▸ index_lt_of_mem_demands hd
  obtain ⟨js, hjs⟩ : ∃ js : List (Fin n), js.map Fin.val = (bindingFor (demands 0 fs) id).indices :=
    ⟨(bindingFor (demands 0 fs) id).indices.pmap Fin.mk (hlt h.length), by simp [List.map_pmap]⟩
  have hmem (j : Fin n) : (σ j : Nat) ∈ (bindingFor (demands 0 fs') id).indices ↔ j ∈ js := by
    rw [mem_indices_bindingFor_iff, ← List.mem_map_of_injective Fin.val_injective, hjs,
      mem_indices_bindingFor_iff]
    exact exists_congr fun k => mem_demands_moved_iff h
  have hnodup : js.Nodup := by
    refine List.Nodup.of_map Fin.val ?_
    rw [hjs]
    exact (ascending_indices fs id).imp Nat.ne_of_lt
  have hascending := ascending_indices fs' id
  have hperm : (bindingFor (demands 0 fs') id).indices.Perm (js.map fun j => (σ j : Nat)) := by
    refine (List.perm_ext_iff_of_nodup (hascending.imp Nat.ne_of_lt)
      (hnodup.map fun i j hij => σ.injective (Fin.val_injective hij))).mpr fun i => ?_
    rw [List.mem_map]
    constructor
    · intro hi
      refine ⟨σ.symm ⟨i, hlt h.length' i hi⟩, (hmem _).mp ?_, ?_⟩ <;> simp [hi]
    · rintro ⟨j, hj, rfl⟩
      exact (hmem j).mpr hj
  exact ⟨js, hjs.symm, (hperm.trans (List.mergeSort_perm _ _).symm).eq_of_pairwise'
    (hascending.imp Nat.le_of_lt) List.sortedLE_mergeSort.pairwise⟩

/-! ## Permuted matches -/

/-- Permuted arguments are matched as well, to the types moved. -/
theorem exists_run_moved (hexpected : Moved σ expected expected') (hgiven : Moved σ given given')
    (h : run .strict function expected given = .ok m) :
    ∃ m', run .strict function expected' given' = .ok m' ∧ Relocated σ m m' := by
  obtain ⟨-, fs, hfs, hclash, hbinds, htypes⟩ := exists_binds_of_run h
  have hzip := (hexpected.zip hgiven).map fun p => p.1.fit? .strict p.2
  rw [hfs] at hzip
  obtain ⟨fs', hmoved⟩ := Moved.exists_of_length ((List.length_map _).symm.trans hzip.length) σ
  have hids {id : String} : id ∈ (demands 0 fs').map Demand.id ↔
      id ∈ (demands 0 fs).map Demand.id :=
    mem_ids_moved_iff hmoved
  have hclash {id : String} (hid : id ∈ (demands 0 fs).map Demand.id) :
      ¬ Clashes .strict (demands 0 fs) id := by
    obtain ⟨d, hd, rfl⟩ := List.mem_map.mp hid
    exact hclash d hd
  have hclash' : ∀ d ∈ demands 0 fs', ¬ Clashes .strict (demands 0 fs') d.id := by
    intro d hd
    have hsame := not_clashes_strict_iff.mp (hclash (hids.mp (List.mem_map_of_mem hd)))
    simp only [← mem_kinds_moved_iff hmoved] at hsame
    exact not_clashes_strict_iff.mpr hsame
  obtain ⟨b', hbinds', hrun⟩ := exists_run_eq function (hexpected.length'.trans hgiven.length'.symm)
    (hzip.unique (hmoved.map some)) hclash'
  have htype : ∀ id, (m.bindings.get? id).map Binding.type = (b'.get? id).map Binding.type := by
    intro id
    rw [hbinds id, hbinds' id]
    by_cases hid : id ∈ (demands 0 fs).map Demand.id
    · rw [if_pos hid, if_pos (hids.mpr hid), Option.map_some, Option.map_some,
        type_bindingFor_moved hmoved (hclash hid)]
    · rw [if_neg hid, if_neg fun hid' => hid (hids.mp hid')]
  -- the types are replaced alike, each at its new place
  rw [substituteAll_eq_ok_iff] at htypes
  have hsub := (hmoved.map Fit.type).map fun t => t.substitute function m.bindings
  rw [htypes] at hsub
  obtain ⟨types', htypes'⟩ := Moved.exists_of_length ((List.length_map _).symm.trans hsub.length) σ
  have hrun' : substituteAll function b' (fs'.map Fit.type) = .ok types' := by
    rw [substituteAll_eq_ok_iff, ← hsub.unique (htypes'.map Except.ok)]
    exact List.map_congr_left fun t _ => (Ty.substitute_congr htype t).symm
  refine ⟨⟨types', b'⟩,
    by rw [hrun, hrun']; rfl, htypes', fun id => ?_, fun id b c hb hc => ?_, fun id b c hb hc => ?_⟩
  · rw [hbinds'.mem_iff, hbinds.mem_iff, hids]
  · obtain ⟨hid, rfl⟩ := hbinds.get?_eq_some_iff.mp hb
    obtain ⟨-, rfl⟩ := hbinds'.get?_eq_some_iff.mp hc
    exact type_bindingFor_moved hmoved (hclash hid)
  · obtain ⟨-, rfl⟩ := hbinds.get?_eq_some_iff.mp hb
    obtain ⟨-, rfl⟩ := hbinds'.get?_eq_some_iff.mp hc
    exact indices_bindingFor_moved hmoved id

/-- Where kinds stand in for themselves alone, the order of the arguments makes no difference:
parameters and arguments permuted together are matched just when they are as they stood, and then to
the same types, permuted alike, with the same variables bound to the same types. -/
theorem run_permuted (function : String) (expected given : Fin n → Ty) (σ : Equiv.Perm (Fin n)) :
    ((∃ m, run .strict function (List.ofFn expected) (List.ofFn given) = .ok m) ↔
      ∃ m', run .strict function (List.ofFn (expected ∘ σ.symm))
        (List.ofFn (given ∘ σ.symm)) = .ok m') ∧
    ∀ m m', run .strict function (List.ofFn expected) (List.ofFn given) = .ok m →
      run .strict function (List.ofFn (expected ∘ σ.symm)) (List.ofFn (given ∘ σ.symm)) = .ok m' →
        Relocated σ m m' := by
  have hexpected := Moved.ofFn expected σ
  have hgiven := Moved.ofFn given σ
  refine ⟨⟨?_, ?_⟩, fun m m' h h' => ?_⟩
  · rintro ⟨m, h⟩
    obtain ⟨m', h', -⟩ := exists_run_moved hexpected hgiven h
    exact ⟨m', h'⟩
  · rintro ⟨m', h'⟩
    obtain ⟨m, h, -⟩ := exists_run_moved hexpected.symm hgiven.symm h'
    exact ⟨m, h⟩
  · obtain ⟨m'', h'', hrelocated⟩ := exists_run_moved hexpected hgiven h
    cases h'.symm.trans h''
    exact hrelocated

/-- The first and the last argument change places, and the variable is bound to a number as
before. -/
theorem run_permuted_swap :
    let T : Ty := .var { id := "T" }
    let expected : Fin 3 → Ty := [T, .scalarOrColumn T, .var { id := "U" }].get
    let given : Fin 3 → Ty := [.any, .collection (.concrete .number), .concrete .string].get
    let σ : Equiv.Perm (Fin 3) := Equiv.swap 0 2
    ∃ m m', run .strict "f" (List.ofFn expected) (List.ofFn given) = .ok m ∧
      run .strict "f" (List.ofFn (expected ∘ σ.symm)) (List.ofFn (given ∘ σ.symm)) = .ok m' ∧
      Relocated σ m m' ∧
      m.bindings.get? "T" = some ⟨[0, 1], .concrete .number⟩ ∧
      m'.bindings.get? "T" = some ⟨[1, 2], .concrete .number⟩ := by
  intro T expected given σ
  obtain ⟨hiff, hrelocated⟩ := run_permuted "f" expected given σ
  obtain ⟨m, hm⟩ : ∃ m, run .strict "f" (List.ofFn expected) (List.ofFn given) = .ok m := ⟨_, rfl⟩
  obtain ⟨m', hm'⟩ := hiff.mp ⟨m, hm⟩
  have h := hrelocated m m' hm hm'
  refine ⟨m, m', hm, hm', h, ?_, ?_⟩
  · cases hm
    rfl
  · cases hm'
    rfl

end Match

end SqlDraft
