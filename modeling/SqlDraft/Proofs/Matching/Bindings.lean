import SqlDraft.Proofs.Matching.Accord

/-! What a match binds its variables to. The variables bound are those of the alternatives that
decide; each keeps the positions where it stands, in order, and the first type given in its place
that is known. Where every kind stands in for itself alone, that kind is within the bound of each of
its occurrences that was given a kind (`Match.run_accounts`). -/

namespace SqlDraft

/-! ## The variable of an alternative -/

namespace Ty

variable {g : Agreement} {l t s : Ty} {v : TypeVar} {k : Option Kind}

theorem kind?_eq_some_iff {k : Kind} : s.kind? = some k ↔ s = concrete k := by
  cases s <;> simp [kind?]

theorem ofKind?_eq_concrete_iff {k : Kind} {o : Option Kind} : ofKind? o = concrete k ↔
    o = some k := by
  cases o <;> simp [ofKind?]

theorem Chooses.meets_alternative {e : Ty} (h : Chooses g e t l) : Meets g l t := by
  induction h with
  | itself _ h => exact h
  | first _ _ ih => exact ih

/-- An alternative that decides has no union, and the type given fits it just as the whole. -/
theorem Chooses.fits {e : Ty} (he : e.shallow = true) (h : Chooses g e t l) :
    l.unionFree = true ∧ fit? g l t = fit? g e t := by
  obtain ⟨f, hfit⟩ := Option.isSome_iff_exists.mp (fit?_isSome_iff.mpr h.meets)
  obtain ⟨l', hl', hfree, hfit'⟩ := exists_chooses he hfit
  obtain rfl := h.unique hl'
  exact ⟨hfree, hfit'.trans hfit.symm⟩

/-- The variable stands somewhere in the type. -/
inductive Occurs (v : TypeVar) : Ty → Prop
  | here : Occurs v (var v)
  | collection {t : Ty} (h : Occurs v t) : Occurs v (collection t)
  | union {ts : List Ty} {t : Ty} (ht : t ∈ ts) (h : Occurs v t) : Occurs v (union ts)

/-- The type given in place of a variable of the alternative, one collection stripped. Below a given
`any` there is `any` at every depth. -/
inductive Stands : (alternative given : Ty) → TypeVar → Ty → Prop
  | here {v : TypeVar} {t : Ty} : Stands (var v) t v t.inner
  | unknown {e : Ty} {v : TypeVar} {s : Ty} (h : Stands e any v s) : Stands (collection e) any v s
  | inner {e t : Ty} {v : TypeVar} {s : Ty} (h : Stands e t v s) :
      Stands (collection e) (collection t) v s

theorem asks_iff_stands : Asks l t v k ↔ ∃ s, Stands l t v s ∧ s.kind? = k := by
  constructor
  · intro h
    induction h with
    | here => exact ⟨_, .here, rfl⟩
    | unknown _ ih => exact ih.imp fun s hs => ⟨.unknown hs.1, hs.2⟩
    | inner _ ih => exact ih.imp fun s hs => ⟨.inner hs.1, hs.2⟩
  · rintro ⟨s, h, rfl⟩
    induction h with
    | here => exact .here
    | unknown _ ih => exact .unknown ih
    | inner _ ih => exact .inner ih

theorem Stands.occurs (h : Stands l t v s) : Occurs v l := by
  induction h with
  | here => exact .here
  | unknown _ ih => exact .collection ih
  | inner _ ih => exact .collection ih

theorem exists_stands (hl : l.unionFree = true) (hmeets : Meets g l t) (h : Occurs v l) :
    ∃ s, Stands l t v s := by
  induction h generalizing t with
  | here => exact ⟨_, .here⟩
  | collection _ ih =>
    rcases meets_collection_iff.mp hmeets with rfl | ⟨s, rfl, hbelow⟩
    · exact (ih hl (.unknown fun es he => by rw [he] at hl; cases hl)).imp fun _ => .unknown
    · exact (ih hl hbelow).imp fun _ => .inner
  | union => cases hl

/-- In place of a variable stands `any`, or a kind that the variable may stand for. -/
theorem Stands.scalar (h : Stands l t v s) (hmeets : Meets g l t) :
    s = any ∨ ∃ k, s = concrete k ∧ ∃ j ∈ v.bound, g.Allows j k := by
  induction h with
  | here => exact meets_var_iff.mp hmeets
  | @unknown e v s h ih =>
    refine ih (.unknown fun es he => ?_)
    rw [he] at h
    cases h
  | inner _ ih =>
    obtain ⟨_, ⟨⟩, hbelow⟩ := (meets_collection_iff.mp hmeets).resolve_left nofun
    exact ih hbelow

end Ty

namespace Match

variable {g : Agreement} {function id : String} {expected given : List Ty} {m : Match}
    {fs : List Fit}

/-! ## What is bound -/

theorem mem_indices_bindingFor_iff {ds : List Demand} {i : Nat} :
    i ∈ (bindingFor ds id).indices ↔ ∃ k, ⟨id, i, k⟩ ∈ ds := by
  simp only [bindingFor, List.mem_map, List.mem_filter, decide_eq_true_eq]
  constructor
  · rintro ⟨⟨_, _, k⟩, ⟨hd, rfl⟩, rfl⟩
    exact ⟨k, hd⟩
  · rintro ⟨k, hd⟩
    exact ⟨_, ⟨hd, rfl⟩, rfl⟩

theorem ascending_indices (fs : List Fit) (id : String) :
    (bindingFor (demands 0 fs) id).indices.Pairwise (· < ·) :=
  List.pairwise_map.mpr ((ascending_demands 0 fs).filter _)

theorem demand_unique {i : Nat} {id' : String} {k k' : Option Kind} (h : ⟨id, i, k⟩ ∈ demands 0 fs)
    (h' : ⟨id', i, k'⟩ ∈ demands 0 fs) : id = id' ∧ k = k' := by
  obtain ⟨f, v, hf, hv, rfl⟩ := mem_demands_iff.mp h
  obtain ⟨f', v', hf', hv', rfl⟩ := mem_demands_iff.mp h'
  obtain rfl := Option.some.inj (hf.symm.trans hf')
  obtain ⟨rfl, rfl⟩ := Prod.mk.inj (Option.some.inj (hv.symm.trans hv'))
  exact ⟨rfl, rfl⟩

/-! ## Occurrences and candidates -/

/-- The variable stands in the alternative that decides at the position. -/
def OccursAt (g : Agreement) (expected given : List Ty) (id : String) (i : Nat) : Prop :=
  ∃ e t l v, expected[i]? = some e ∧ given[i]? = some t ∧ e.Chooses g t l ∧
    Ty.Occurs v l ∧ v.id = id

/-- At the position the type is given in place of the variable, one collection stripped. -/
def Candidate (g : Agreement) (expected given : List Ty) (i : Nat) (v : TypeVar) (s : Ty) : Prop :=
  ∃ e t l, expected[i]? = some e ∧ given[i]? = some t ∧ e.Chooses g t l ∧ l.Stands t v s

theorem Candidate.scalar {i : Nat} {v : TypeVar} {s : Ty} (h : Candidate g expected given i v s) :
    s = .any ∨ ∃ k, s = .concrete k ∧ ∃ j ∈ v.bound, g.Allows j k := by
  obtain ⟨e, t, l, -, -, hl, hs⟩ := h
  exact hs.scalar hl.meets_alternative

/-- What the binding of a variable tells of the arguments: where it stands in them, in order, and
the first type given in its place that is known, or `any` just when none is. -/
structure Accounts (g : Agreement) (expected given : List Ty) (id : String)
    (b : Binding) : Prop where
  mem_indices_iff : ∀ i, i ∈ b.indices ↔ OccursAt g expected given id i
  ascending : b.indices.Pairwise (· < ·)
  any_iff : b.type = .any ↔ ∀ i v s, Candidate g expected given i v s → v.id = id → s = .any
  first : b.type = .any ∨ ∃ i v k, b.type = .concrete k ∧
    Candidate g expected given i v (.concrete k) ∧ v.id = id ∧
    ∀ j w s, j < i → Candidate g expected given j w s → w.id = id → s = .any

section

variable (hexpected : ∀ e ∈ expected, e.shallow = true)

include hexpected

theorem occursAt_iff_candidate {i : Nat} :
    OccursAt g expected given id i ↔ ∃ v s, Candidate g expected given i v s ∧ v.id = id := by
  constructor
  · rintro ⟨e, t, l, v, he, ht, hl, hv, hid⟩
    obtain ⟨hfree, -⟩ := hl.fits (hexpected e (List.mem_of_getElem? he))
    obtain ⟨s, hs⟩ := Ty.exists_stands hfree hl.meets_alternative hv
    exact ⟨v, s, ⟨e, t, l, he, ht, hl, hs⟩, hid⟩
  · rintro ⟨v, s, ⟨e, t, l, he, ht, hl, hs⟩, hid⟩
    exact ⟨e, t, l, v, he, ht, hl, hs.occurs, hid⟩

variable (hfs : (expected.zip given).map (fun p => p.1.fit? g p.2) = fs.map some)

include hfs

theorem mem_demands_iff_candidate {i : Nat} {k : Option Kind} :
    ⟨id, i, k⟩ ∈ demands 0 fs ↔
      ∃ v s, Candidate g expected given i v s ∧ s.kind? = k ∧ v.id = id := by
  rw [mem_demands_iff]
  constructor
  · rintro ⟨f, v, hf, hdemand, hid⟩
    obtain ⟨e, t, he, ht, hfit⟩ := exists_fitted hfs hf
    obtain ⟨l, hl, hfree, hfit⟩ := Ty.exists_chooses (hexpected e (List.mem_of_getElem? he)) hfit
    obtain ⟨s, hs, hk⟩ := Ty.asks_iff_stands.mp ((Ty.demand_eq_some_iff hfree hfit).mp hdemand)
    exact ⟨v, s, ⟨e, t, l, he, ht, hl, hs⟩, hk, hid⟩
  · rintro ⟨v, s, ⟨e, t, l, he, ht, hl, hs⟩, hk, hid⟩
    obtain ⟨f, hf, hfit⟩ := exists_fit hfs he ht
    obtain ⟨hfree, hsame⟩ := hl.fits (hexpected e (List.mem_of_getElem? he))
    have hask : l.Asks t v k := Ty.asks_iff_stands.mpr ⟨s, hs, hk⟩
    exact ⟨f, v, hf, (Ty.demand_eq_some_iff hfree (hsame.trans hfit)).mpr hask, hid⟩

theorem exists_demand_iff_occursAt {i : Nat} :
    (∃ k, ⟨id, i, k⟩ ∈ demands 0 fs) ↔ OccursAt g expected given id i := by
  rw [occursAt_iff_candidate hexpected]
  simp only [mem_demands_iff_candidate hexpected hfs]
  constructor
  · rintro ⟨k, v, s, hs, -, hid⟩
    exact ⟨v, s, hs, hid⟩
  · rintro ⟨v, s, hs, hid⟩
    exact ⟨s.kind?, v, s, hs, rfl, hid⟩

theorem mem_kindsFor_iff_candidate {i : Nat} {k : Kind} : (i, k) ∈ kindsFor (demands 0 fs) id ↔
    ∃ v, Candidate g expected given i v (.concrete k) ∧ v.id = id := by
  rw [mem_kindsFor_iff, mem_demands_iff_candidate hexpected hfs]
  simp only [Ty.kind?_eq_some_iff]
  constructor
  · rintro ⟨v, s, hs, rfl, hid⟩
    exact ⟨v, hs, hid⟩
  · rintro ⟨v, hs, hid⟩
    exact ⟨v, _, hs, rfl, hid⟩

/-- What is given for a variable accounts for its binding. -/
theorem accounts_bindingFor (id : String) :
    Accounts g expected given id (bindingFor (demands 0 fs) id) := by
  have hkind {i : Nat} {k : Kind} : (i, k) ∈ kindsFor (demands 0 fs) id ↔
      ∃ v, Candidate g expected given i v (.concrete k) ∧ v.id = id :=
    mem_kindsFor_iff_candidate hexpected hfs
  have hascending := pairwise_kindsFor (ascending_demands 0 fs) id
  -- a candidate whose kind is known is among the kinds reconciled
  have hknown {i : Nat} {v : TypeVar} {s : Ty} (hs : Candidate g expected given i v s)
      (hid : v.id = id) :
      s = .any ∨ ∃ k, (i, k) ∈ kindsFor (demands 0 fs) id := by
    refine hs.scalar.imp_right ?_
    rintro ⟨k, rfl, -⟩
    exact ⟨k, hkind.mpr ⟨v, hs, hid⟩⟩
  refine ⟨fun i => ?_, ascending_indices fs id, ?_, ?_⟩
  · rw [mem_indices_bindingFor_iff, exists_demand_iff_occursAt hexpected hfs]
  · cases hkinds : kindsFor (demands 0 fs) id with
    | nil =>
      simp only [bindingFor, hkinds, List.head?_nil, Option.map_none, Ty.ofKind?, true_iff]
      intro i v s hs hid
      refine (hknown hs hid).resolve_right ?_
      rintro ⟨k, hk⟩
      rw [hkinds] at hk
      cases hk
    | cons p ps =>
      obtain ⟨v, hv, hid⟩ :=
        hkind.mp (hkinds ▸ List.mem_cons_self : (p.1, p.2) ∈ kindsFor (demands 0 fs) id)
      simp only [bindingFor, hkinds, List.head?_cons, Option.map_some, Ty.ofKind?,
        reduceCtorEq, false_iff]
      intro h
      cases h _ _ _ hv hid
  · cases hkinds : kindsFor (demands 0 fs) id with
    | nil => exact .inl (by rw [bindingFor, hkinds]; rfl)
    | cons p ps =>
      obtain ⟨v, hv, hid⟩ :=
        hkind.mp (hkinds ▸ List.mem_cons_self : (p.1, p.2) ∈ kindsFor (demands 0 fs) id)
      refine .inr ⟨p.1, v, p.2, by rw [bindingFor, hkinds]; rfl, hv, hid, fun j w s hj hs hw => ?_⟩
      refine (hknown hs hw).resolve_right ?_
      rintro ⟨k, hk⟩
      rw [hkinds] at hk hascending
      rcases List.mem_cons.mp hk with rfl | hk
      · exact Nat.lt_irrefl _ hj
      · exact Nat.lt_asymm hj (List.rel_of_pairwise_cons hascending hk)

end

/-! ## What a match binds -/

/-- What a match binds its variables to: each variable of an alternative that decides is bound, as
the arguments account for; no two share a position; and where kinds stand in for themselves alone,
the kind bound is within the bound of each occurrence that was given a kind. -/
theorem run_accounts (hexpected : ∀ e ∈ expected, e.shallow = true)
    (h : run g function expected given = .ok m) :
    (∀ id, id ∈ m.bindings ↔ ∃ i, OccursAt g expected given id i) ∧
      (∀ id b, m.bindings.get? id = some b → Accounts g expected given id b) ∧
      (∀ id id' b b' i, m.bindings.get? id = some b → m.bindings.get? id' = some b' →
        i ∈ b.indices → i ∈ b'.indices → id = id') ∧
      (g = .strict → ∀ id b k, m.bindings.get? id = some b → b.type = .concrete k →
        ∀ i v s, Candidate g expected given i v s → v.id = id → s ≠ .any → k ∈ v.bound) := by
  obtain ⟨-, fs, hfs, hclash, hbinds, -⟩ := exists_binds_of_run h
  refine ⟨fun id => ?_, fun id b hb => ?_, fun id id' b b' i hb hb' hi hi' => ?_, ?_⟩
  · simp only [hbinds.mem_iff, List.mem_map, ← exists_demand_iff_occursAt hexpected hfs]
    constructor
    · rintro ⟨d, hd, rfl⟩
      exact ⟨d.index, d.kind, hd⟩
    · rintro ⟨i, k, hd⟩
      exact ⟨_, hd, rfl⟩
  · obtain ⟨-, rfl⟩ := hbinds.get?_eq_some_iff.mp hb
    exact accounts_bindingFor hexpected hfs id
  · obtain ⟨-, rfl⟩ := hbinds.get?_eq_some_iff.mp hb
    obtain ⟨-, rfl⟩ := hbinds.get?_eq_some_iff.mp hb'
    obtain ⟨k, hd⟩ := mem_indices_bindingFor_iff.mp hi
    obtain ⟨k', hd'⟩ := mem_indices_bindingFor_iff.mp hi'
    exact (demand_unique hd hd').1
  · rintro rfl id b k hb hk i v s hs hid hs'
    obtain ⟨hmem, rfl⟩ := hbinds.get?_eq_some_iff.mp hb
    obtain ⟨d, hd, rfl⟩ := List.mem_map.mp hmem
    obtain ⟨a, rfl, j, hj, hja⟩ := hs.scalar.resolve_left hs'
    have hkind := (mem_kindsFor_iff_candidate hexpected hfs).mpr ⟨v, hs, hid⟩
    have hhead : k ∈ ((kindsFor (demands 0 fs) d.id).map Prod.snd).head? := by
      rw [List.head?_map]
      exact Ty.ofKind?_eq_concrete_iff.mp hk
    have hfirst := not_clashes_iff.mp (hclash d hd) a (List.mem_map_of_mem hkind) k hhead
    rwa [← Agreement.allows_strict_iff.mp hfirst, ← Agreement.allows_strict_iff.mp hja]

/-- A variable with two bounds, told a number at one position and nothing at two others. -/
theorem run_accounts_bounds :
    let T : Ty := .var { id := "T", bound := [.number] }
    let U : Ty := .var { id := "U" }
    let expected : List Ty := [.union [.collection T, U],
      .scalarOrColumn (.var { id := "T", bound := [.string, .number] }),
      .collection (.collection T), U]
    let given : List Ty :=
      [.collection .any, .collection (.concrete .number), .collection .any, .any]
    (∀ e ∈ expected, e.shallow = true) ∧ ∃ m, run .strict "f" expected given = .ok m ∧
      (∀ id, id ∈ m.bindings ↔ ∃ i, OccursAt .strict expected given id i) ∧
      Accounts .strict expected given "T" ⟨[0, 1, 2], .concrete .number⟩ ∧
      Accounts .strict expected given "U" ⟨[3], .any⟩ ∧
      ∀ i v s, Candidate .strict expected given i v s → v.id = "T" → s ≠ .any →
        .number ∈ v.bound := by
  intro T U expected given
  have hexpected : ∀ e ∈ expected, e.shallow = true := by decide
  obtain ⟨m, hm⟩ : ∃ m, run .strict "f" expected given = .ok m := ⟨_, rfl⟩
  obtain ⟨hmem, haccounts, -, hbound⟩ := run_accounts hexpected hm
  cases hm
  exact ⟨hexpected, _, rfl, hmem, haccounts "T" _ rfl, haccounts "U" _ rfl,
    hbound rfl "T" _ _ rfl rfl⟩

end Match

end SqlDraft
