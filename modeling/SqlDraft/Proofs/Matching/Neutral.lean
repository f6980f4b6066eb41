import SqlDraft.Proofs.Matching.Blame
import SqlDraft.Proofs.Matching.Permuted

/-! Unknown types in place of known ones. An unknown type may meet an earlier alternative than the
type that it stands for, and leave the decision of a variable to a later argument; still it says
nothing against any other. What is matched stays matched when types are forgotten just where the
table is transitive, and where kinds stand in for themselves alone a variable keeps its type unless
nothing is known of it any more (`Match.run_forgets`). -/

namespace SqlDraft.Match

/-- Some of the types are replaced by `any`, and the others stay. -/
def Forgets (given given' : List Ty) : Prop :=
  List.Forall₂ (fun t t' => t' = t ∨ t' = .any) given given'

instance (given given' : List Ty) : Decidable (Forgets given given') :=
  inferInstanceAs (Decidable (List.Forall₂ _ given given'))

variable {g : Agreement} {function id : String} {expected given given' : List Ty} {m m' : Match}
    {b b' : Binding}

/-- Each type that is left is the one given at its position, or is unknown. -/
theorem Forgets.exists_getElem? (h : Forgets given given') {i : Nat} {t' : Ty}
    (ht' : given'[i]? = some t') :
    ∃ t, given[i]? = some t ∧ (t' = t ∨ t' = .any) := by
  induction h generalizing i with
  | nil => cases ht'
  | cons hhead _ ih =>
    cases i with
    | zero =>
      cases ht'
      exact ⟨_, rfl, hhead⟩
    | succ i => exact ih ht'

theorem Forgets.isGround (h : Forgets given given') (hgiven : ∀ t ∈ given, t.isGround = true) :
    ∀ t' ∈ given', t'.isGround = true := by
  intro t' ht'
  obtain ⟨i, hi⟩ := List.mem_iff_getElem?.mp ht'
  obtain ⟨t, ht, rfl | rfl⟩ := h.exists_getElem? hi
  · exact hgiven _ (List.mem_of_getElem? ht)
  · rfl

/-- A kind that is still recorded was recorded before. -/
theorem Recorded.of_forgets {i : Nat} {k : Kind} (h : Forgets given given')
    (hk : Recorded g expected given' id i k) :
    Recorded g expected given id i k := by
  obtain ⟨e, t', v, he, ht', hrecords, hid⟩ := hk
  obtain ⟨t, ht, rfl | rfl⟩ := h.exists_getElem? ht'
  · exact ⟨e, t', v, he, ht, hrecords, hid⟩
  · cases hrecords.eq_none rfl

/-- Over a transitive table the kinds still recorded agree with whichever of them comes first
now. -/
theorem accepts_of_forgets (hg : g.Transitive) (h : Forgets given given')
    (hrun : run g function expected given = .ok m) :
    Accepts g expected given' := by
  obtain ⟨hlength, fs, hfs, -⟩ := exists_binds_of_run hrun
  refine ⟨hlength.trans h.length_eq, fun p hp => ?_, fun id i c j a hc _ ha => ?_⟩
  · obtain ⟨i, hi⟩ := List.mem_iff_getElem?.mp hp
    obtain ⟨he, ht'⟩ := List.getElem?_zip_eq_some.mp hi
    obtain ⟨t, ht, hsame⟩ := h.exists_getElem? ht'
    obtain ⟨f, -, hfit⟩ := exists_fit hfs he ht
    have hmeets : p.1.Meets g t := Ty.fit?_isSome_iff.mp (Option.isSome_of_eq_some hfit)
    rcases hsame with hsame | hsame <;> rw [hsame]
    · exact hmeets
    · exact Ty.meets_any_of_meets hmeets
  · obtain ⟨_, first, -, hfirst⟩ := exists_first_recorded hrun (hc.of_forgets h)
    exact hg a first c (hfirst j a (ha.of_forgets h)).2 (hfirst i c (hc.of_forgets h)).2.symm

theorem exists_run_of_forgets (hg : g.Transitive) (hexpected : ∀ e ∈ expected, e.shallow = true)
    (hgiven : ∀ t ∈ given, t.isGround = true) (h : Forgets given given')
    (hrun : run g function expected given = .ok m) :
      ∃ m', run g function expected given' = .ok m' := by
  refine exists_run_of_accepts function (h.isGround hgiven) (accepts_of_forgets hg h hrun) ?_
  rintro ⟨p, hp, hopens⟩
  exact Ty.not_opens_of_shallow (hexpected _ (List.of_mem_zip hp).1) hopens

/-- Behind a kind that two others may stand in for they are matched; once it is forgotten, just if
they agree. -/
theorem transitive_of_forgets
    (h : ∀ (function : String) (expected given given' : List Ty) (m : Match),
    (∀ e ∈ expected, e.shallow = true) → (∀ t ∈ given, t.isGround = true) → Forgets given given' →
      run g function expected given = .ok m →
      ∃ m', run g function expected given' = .ok m') : g.Transitive := by
  intro a b c hab hbc
  have hheads : Heads g [b, a, c] := by simp [Heads, g.allows_refl, hab, hbc.symm]
  obtain ⟨m, hm⟩ : ∃ m,
    run g "f" ([b, a, c].map fun _ => .var { id := "T" }) ([b, a, c].map .concrete) = .ok m :=
    exists_run_kinds_iff.mpr hheads
  let left : List Ty := [.any, .concrete a, .concrete c]
  have hforgets : Forgets ([b, a, c].map .concrete) left :=
    .cons (.inr rfl) (.cons (.inl rfl) (.cons (.inl rfl) .nil))
  have hrun : ∃ m, run g "f" (left.map fun _ => .var { id := "T" }) left = .ok m :=
    h "f" _ _ _ m (by simp [Ty.shallow]) (by simp [Ty.isGround]) hforgets hm
  have hleft : Heads g [a, c] := (exists_run_same_iff.mp hrun).2
  exact (hleft c (by simp) a rfl).symm

/-- What a variable is still bound to may stand in for what it was bound to, if it is known at
all. -/
theorem type_of_forgets (h : Forgets given given') (hrun : run g function expected given = .ok m)
    (hrun' : run g function expected given' = .ok m') (hb : m.bindings.get? id = some b)
    (hb' : m'.bindings.get? id = some b') :
    b'.type = .any ∨ ∃ k k', b.type = .concrete k ∧ b'.type = .concrete k' ∧ g.Allows k' k := by
  obtain ⟨-, fs, hfs, hclash, hbinds, -⟩ := exists_binds_of_run hrun
  obtain ⟨-, fs', hfs', -, hbinds', -⟩ := exists_binds_of_run hrun'
  obtain ⟨-, rfl⟩ := hbinds.get?_eq_some_iff.mp hb
  obtain ⟨-, rfl⟩ := hbinds'.get?_eq_some_iff.mp hb'
  cases hkinds' : kindsFor (demands 0 fs') id with
  | nil => exact .inl (by rw [bindingFor, hkinds']; rfl)
  | cons p ps =>
    have hstill : Recorded g expected given' id p.1 p.2 :=
      (mem_kindsFor_demands_iff hfs').mp (hkinds' ▸ List.mem_cons_self)
    have hbefore : (p.1, p.2) ∈ kindsFor (demands 0 fs) id :=
      (mem_kindsFor_demands_iff hfs).mpr (hstill.of_forgets h)
    have hheads := not_clashes_iff.mp (hclash _ (mem_kindsFor_iff.mp hbefore)) p.2
      (List.mem_map_of_mem hbefore)
    cases hkinds : kindsFor (demands 0 fs) id with
    | nil => rw [hkinds] at hbefore; cases hbefore
    | cons first rest =>
      rw [hkinds] at hheads
      exact .inr ⟨first.2, p.2, by rw [bindingFor, hkinds]; rfl, by rw [bindingFor, hkinds']; rfl,
        hheads first.2 rfl⟩

/-- Unknown types are neutral. A table is transitive just when any types of any match may be
forgotten, provided that no parameter has a union in a collection; and where kinds stand in for
themselves alone, a variable that is bound before and after keeps its type or is bound to `any`. -/
theorem run_forgets (g : Agreement) :
    (g.Transitive ↔ ∀ (function : String) (expected given given' : List Ty) (m : Match),
      (∀ e ∈ expected, e.shallow = true) → (∀ t ∈ given, t.isGround = true) → Forgets given given' →
        run g function expected given = .ok m → ∃ m', run g function expected given' = .ok m') ∧
    ∀ (function : String) (expected given given' : List Ty) (m m' : Match), Forgets given given' →
      run .strict function expected given = .ok m → run .strict function expected given' = .ok m' →
        ∀ id b b', m.bindings.get? id = some b → m'.bindings.get? id = some b' →
          b'.type = b.type ∨ b'.type = .any := by
  refine ⟨⟨fun hg _ _ _ _ _ => exists_run_of_forgets hg, transitive_of_forgets⟩, ?_⟩
  intro function expected given given' m m' h hrun hrun' id b b' hb hb'
  rcases type_of_forgets h hrun hrun' hb hb' with hany | ⟨k, k', hk, hk', hallows⟩
  · exact .inr hany
  · rw [hk, hk', Agreement.allows_strict_iff.mp hallows]
    exact .inl rfl

/-- A moment stands in for the day that decided a variable, and an unknown type passes by the
variable that another one was bound for. -/
theorem run_forgets_day :
    let g : Agreement := ⟨[(.date, .datetime)]⟩
    let T : Ty := .var { id := "T" }
    let U : Ty := .var { id := "U" }
    let expected : List Ty := [.union [.concrete .number, U], .scalarOrColumn T, T]
    let given : List Ty := [.concrete .string, .collection (.concrete .date), .concrete .datetime]
    let day : List Ty := [.concrete .string, .collection (.concrete .date), .concrete .date]
    g.Transitive ∧ (∀ e ∈ expected, e.shallow = true) ∧ (∀ t ∈ given, t.isGround = true) ∧
      (∃ m m', run g "f" expected given = .ok m ∧
        run g "f" expected [.any, .any, .concrete .datetime] = .ok m' ∧
        m.bindings.get? "T" = some ⟨[1, 2], .concrete .date⟩ ∧
        m'.bindings.get? "T" = some ⟨[1, 2], .concrete .datetime⟩ ∧ m'.bindings.get? "U" = none) ∧
      ∃ m m', run .strict "f" expected day = .ok m ∧
        run .strict "f" expected [.concrete .string, .any, .any] = .ok m' ∧
        ∀ id b b', m.bindings.get? id = some b → m'.bindings.get? id = some b' → b'.type = b.type ∨
          b'.type = .any := by
  intro g T U expected given day
  have hg : g.Transitive := by decide
  have hexpected : ∀ e ∈ expected, e.shallow = true := by decide
  have hgiven : ∀ t ∈ given, t.isGround = true := by decide
  obtain ⟨hiff, hkeeps⟩ := run_forgets g
  obtain ⟨m, hm⟩ : ∃ m, run g "f" expected given = .ok m := ⟨_, rfl⟩
  obtain ⟨m', hm'⟩ := hiff.mp hg "f" expected given
    [.any, .any, .concrete .datetime] m hexpected hgiven (by decide) hm
  have hday : Forgets day [.concrete .string, .any, .any] := by decide
  refine ⟨hg, hexpected, hgiven, ⟨m, m', hm, hm', ?_, ?_, ?_⟩, _, _, rfl, rfl,
    hkeeps "f" expected day _ _ _ hday rfl rfl⟩
  · cases hm
    rfl
  · cases hm'
    rfl
  · cases hm'
    rfl

end SqlDraft.Match
