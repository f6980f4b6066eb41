import SqlDraft.Proofs.Matching.Position
import SqlDraft.Sql.Outcomes
import SqlDraft.Ty.Match

/-! What a match comes to. A position that is not met is told before any disagreement, a
disagreement before success, and each by the first place where it shows (`Match.Ruling`); matching
comes to just what is ruled (`Match.run_iff_ruling`). -/

namespace SqlDraft

open Sql

namespace Match

/-! ## Rules -/

/-- The demands that the positions make from the index on, each of them met by the alternative it
chooses. -/
inductive Candidates (g : Agreement) : Nat → List (Ty × Ty) → List Demand → Prop
  | nil {i : Nat} : Candidates g i [] []
  | asking {i : Nat} {e t l : Ty} {v : TypeVar} {k : Option Kind} {ps : List (Ty × Ty)}
      {ds : List Demand}
      (hl : e.Chooses g t l) (h : l.Asks t v k) (hrest : Candidates g (i + 1) ps ds) :
      Candidates g i ((e, t) :: ps) (⟨v.id, i, k⟩ :: ds)
  | silent {i : Nat} {e t l : Ty} {ps : List (Ty × Ty)} {ds : List Demand} (hl : e.Chooses g t l)
      (h : ∀ v k, ¬ l.Asks t v k) (hrest : Candidates g (i + 1) ps ds) :
        Candidates g i ((e, t) :: ps) ds

/-- The kinds given for a variable, each with its position, in order. -/
def kindsFor (ds : List Demand) (id : String) : List (Nat × Kind) :=
  ds.filterMap fun d => if d.id = id then d.kind.map fun k => (d.index, k) else none

/-- Some kind given for the variable is neither the first one given nor may it stand in for that. -/
def Clashes (g : Agreement) (ds : List Demand) (id : String) : Prop :=
  ∃ first ∈ (kindsFor ds id).head?, ∃ p ∈ kindsFor ds id, ¬ g.Allows p.2 first.2

/-- What the variable is bound to when nothing given for it clashes. -/
def bindingFor (ds : List Demand) (id : String) : Binding where
  indices := (ds.filter fun d => d.id = id).map Demand.index
  type := .ofKind? ((kindsFor ds id).head?.map Prod.snd)

/-- What the types given come to against those expected. -/
inductive Ruling (g : Agreement) (function : String) (expected given : List Ty) :
    Outcome Unit → Prop
  | arity (h : expected.length ≠ given.length) :
      Ruling g function expected given
        (.error (.arity function (.count expected.length) (.count given.length)))
  | mismatch {front back : List (Ty × Ty)} {e t : Ty} (hlength : expected.length = given.length)
      (hps : expected.zip given = front ++ (e, t) :: back) (hfront : ∀ p ∈ front, p.1.Meets g p.2)
      (h : ¬ e.Meets g t) :
      Ruling g function expected given
        (.error (.mismatch function (.count front.length) e.describe t.describe))
  | conflict {front back : List Demand} {d : Demand} (hlength : expected.length = given.length)
      (hds : Candidates g 0 (expected.zip given) (front ++ d :: back))
      (hfront : ∀ c ∈ front, ¬ Clashes g (front ++ d :: back) c.id)
      (h : Clashes g (front ++ d :: back) d.id) :
      Ruling g function expected given
        (.error (.conflict function d.id
          ((kindsFor (front ++ d :: back) d.id).map fun p => p.2.label)
          ((kindsFor (front ++ d :: back) d.id).map fun p => .count p.1)))
  | success {ds : List Demand} (hlength : expected.length = given.length)
      (hds : Candidates g 0 (expected.zip given) ds) (h : ∀ d ∈ ds, ¬ Clashes g ds d.id) :
      Ruling g function expected given (.ok ())

/-! ## Candidates -/

variable {g : Agreement} {function : String}

theorem Candidates.unique {i : Nat} {ps : List (Ty × Ty)} {ds ds' : List Demand}
    (h : Candidates g i ps ds) (h' : Candidates g i ps ds') : ds = ds' := by
  induction h generalizing ds' with
  | nil => cases h'; rfl
  | asking hl h _ ih =>
    cases h' with
    | asking hl' h' hrest' =>
      obtain rfl := hl.unique hl'
      obtain ⟨rfl, rfl⟩ := h.unique h'
      rw [ih hrest']
    | silent hl' h' =>
      obtain rfl := hl.unique hl'
      exact absurd h (h' _ _)
  | silent hl h _ ih =>
    cases h' with
    | asking hl' h' =>
      obtain rfl := hl.unique hl'
      exact absurd h' (h _ _)
    | silent _ _ hrest' => exact ih hrest'

theorem Candidates.meets {i : Nat} {ps : List (Ty × Ty)} {ds : List Demand}
    (h : Candidates g i ps ds) :
    ∀ p ∈ ps, p.1.Meets g p.2 := by
  induction h with
  | nil => exact List.forall_mem_nil _
  | asking hl _ _ ih => exact List.forall_mem_cons.mpr ⟨hl.meets, ih⟩
  | silent hl _ _ ih => exact List.forall_mem_cons.mpr ⟨hl.meets, ih⟩

theorem Candidates.le_index {i : Nat} {ps : List (Ty × Ty)} {ds : List Demand}
    (h : Candidates g i ps ds) : ∀ d ∈ ds, i ≤ d.index := by
  induction h with
  | nil => exact List.forall_mem_nil _
  | asking _ _ _ ih =>
    exact List.forall_mem_cons.mpr ⟨Nat.le_refl _, fun d hd => Nat.le_of_succ_le (ih d hd)⟩
  | silent _ _ _ ih => exact fun d hd => Nat.le_of_succ_le (ih d hd)

/-- Each position makes one demand at most, and they come in order. -/
theorem Candidates.ascending {i : Nat} {ps : List (Ty × Ty)} {ds : List Demand}
    (h : Candidates g i ps ds) : ds.Pairwise fun c d => c.index < d.index := by
  induction h with
  | nil => exact .nil
  | asking _ _ hrest ih => exact .cons (fun d hd => hrest.le_index d hd) ih
  | silent _ _ _ ih => exact ih

theorem pairwise_kindsFor {ds : List Demand} (h : ds.Pairwise fun c d => c.index < d.index)
    (id : String) : (kindsFor ds id).Pairwise fun p q => p.1 < q.1 := by
  rw [kindsFor, List.pairwise_filterMap]
  refine h.imp fun hlt p hp q hq => ?_
  split at hp
  · obtain ⟨k, -, rfl⟩ := Option.map_eq_some_iff.mp hp
    split at hq
    · obtain ⟨k', -, rfl⟩ := Option.map_eq_some_iff.mp hq
      exact hlt
    · cases hq
  · cases hp

/-! ## Positions -/

theorem fits_eq_ok_iff {i : Nat} {ps : List (Ty × Ty)} {fs : List Fit} :
    fits g function i ps = .ok fs ↔ ps.map (fun p => p.1.fit? g p.2) = fs.map some := by
  induction ps generalizing i fs with
  | nil => cases fs <;> simp [fits]
  | cons p ps ih =>
    rw [fits]
    cases hf : p.1.fit? g p.2 with
    | none => cases fs <;> simp [hf]
    | some f =>
      rw [map_eq_ok_iff]
      constructor
      · rintro ⟨rest, hrest, rfl⟩
        rw [List.map_cons, List.map_cons, hf, ih.mp hrest]
      · intro h
        cases fs with
        | nil => cases h
        | cons f' fs =>
          obtain ⟨hf', hfs⟩ := List.cons.inj h
          obtain rfl := Option.some.inj (hf.symm.trans hf')
          exact ⟨fs, ih.mpr hfs, rfl⟩

/-- The first position that is not met is told of. -/
theorem fits_eq_error {front back : List (Ty × Ty)} {e t : Ty}
    (hfront : ∀ p ∈ front, p.1.Meets g p.2)
    (h : ¬ e.Meets g t) (i : Nat) : fits g function i (front ++ (e, t) :: back) =
      .error (.mismatch function (.count (i + front.length)) e.describe t.describe) := by
  induction front generalizing i with
  | nil => rw [List.nil_append, fits, Ty.fit?_eq_none_iff.mpr h]; rfl
  | cons p front ih =>
    obtain ⟨hp, hfront⟩ := List.forall_mem_cons.mp hfront
    obtain ⟨f, hf⟩ := Option.isSome_iff_exists.mp (Ty.fit?_isSome_iff.mpr hp)
    rw [List.cons_append, fits, hf]
    dsimp only
    rw [ih hfront, Nat.add_right_comm, List.length_cons, Nat.add_assoc]
    rfl

theorem exists_fits (function : String) {ps : List (Ty × Ty)}
    (h : ∀ p ∈ ps, p.1.Meets g p.2) (i : Nat) :
    ∃ fs, fits g function i ps = .ok fs := by
  induction ps generalizing i with
  | nil => exact ⟨[], rfl⟩
  | cons p ps ih =>
    obtain ⟨hp, hps⟩ := List.forall_mem_cons.mp h
    obtain ⟨f, hf⟩ := Option.isSome_iff_exists.mp (Ty.fit?_isSome_iff.mpr hp)
    obtain ⟨fs, hfs⟩ := ih hps (i + 1)
    exact ⟨f :: fs, by rw [fits, hf, hfs]; rfl⟩

theorem candidates_demands {i : Nat} {ps : List (Ty × Ty)} {fs : List Fit}
    (hps : ∀ p ∈ ps, p.1.shallow = true) (h : ps.map (fun p => p.1.fit? g p.2) = fs.map some) :
    Candidates g i ps (demands i fs) := by
  induction ps generalizing i fs with
  | nil =>
    cases fs with
    | nil => exact .nil
    | cons f fs => cases h
  | cons p ps ih =>
    cases fs with
    | nil => cases h
    | cons f fs =>
      obtain ⟨hf, hfs⟩ := List.cons.inj h
      obtain ⟨hp, hps⟩ := List.forall_mem_cons.mp hps
      obtain ⟨l, hl, hfree, hfit⟩ := Ty.exists_chooses hp hf
      have hask {v : TypeVar} {k : Option Kind} :=
        Ty.demand_eq_some_iff (v := v) (k := k) hfree hfit
      rw [demands]
      cases hdemand : f.demand with
      | none =>
        exact .silent hl (fun v k hvk => by cases hdemand.symm.trans (hask.mpr hvk)) (ih hps hfs)
      | some d => exact .asking hl (hask.mp hdemand) (ih hps hfs)

/-- A position settles on a type in which every variable is one that a demand was made on. -/
theorem within_of_fits {i : Nat} {ps : List (Ty × Ty)} {fs : List Fit}
    (hps : ∀ p ∈ ps, p.1.shallow = true ∧ p.2.isGround = true)
    (h : ps.map (fun p => p.1.fit? g p.2) = fs.map some) {ids : List String}
    (hids : ∀ d ∈ demands i fs, d.id ∈ ids) : ∀ t ∈ fs.map Fit.type, t.Within ids := by
  induction ps generalizing i fs with
  | nil =>
    cases fs with
    | nil => exact List.forall_mem_nil _
    | cons f fs => cases h
  | cons p ps ih =>
    cases fs with
    | nil => cases h
    | cons f fs =>
      obtain ⟨hf, hfs⟩ := List.cons.inj h
      obtain ⟨⟨hp, ht⟩, hps⟩ := List.forall_mem_cons.mp hps
      obtain ⟨l, -, hfree, hfit⟩ := Ty.exists_chooses hp hf
      have hrest : ∀ d ∈ demands (i + 1) fs, d.id ∈ ids := fun d hd => hids d (by
        rw [demands]
        split
        · exact List.mem_cons_of_mem _ hd
        · exact hd)
      refine List.forall_mem_cons.mpr ⟨Ty.within_of_fit? hfree ht hfit fun v k hv => ?_,
        ih hps hfs hrest⟩
      exact hids ⟨v.id, i, k⟩ (by rw [demands, hv]; exact List.mem_cons_self)

/-! ## Reconciling -/

theorem kinds_group (ds : List Demand) (id : String) :
    ((ds.filter fun d => d.id = id).filter fun d => d.kind.isSome).filterMap Demand.kind =
      (kindsFor ds id).map Prod.snd := by
  induction ds with
  | nil => rfl
  | cons d ds ih =>
    by_cases hid : d.id = id
    · cases hk : d.kind <;> simp_all [kindsFor]
    · simp_all [kindsFor]

theorem indices_group (ds : List Demand) (id : String) :
    (((ds.filter fun d => d.id = id).filter fun d => d.kind.isSome).map fun d =>
      Figure.count d.index) =
      (kindsFor ds id).map fun p => .count p.1 := by
  induction ds with
  | nil => rfl
  | cons d ds ih =>
    by_cases hid : d.id = id
    · cases hk : d.kind <;> simp_all [kindsFor]
    · simp_all [kindsFor]

theorem clashes_iff {ds : List Demand} {id : String} :
    Clashes g ds id ↔ ¬ (((kindsFor ds id).map Prod.snd).all fun k =>
      ((kindsFor ds id).map Prod.snd).head?.all fun first => g.Allows k first) = true := by
  unfold Clashes
  cases kindsFor ds id with
  | nil => simp
  | cons p ps => simp [g.allows_refl]

theorem reconcile_of_not_clashes {ds : List Demand} {id : String} (h : ¬ Clashes g ds id) :
    reconcile g function id (ds.filter fun d => d.id = id) = .ok (bindingFor ds id) := by
  unfold reconcile
  dsimp only
  rw [kinds_group, if_pos (by simpa [clashes_iff] using h), bindingFor, List.head?_map]

theorem reconcile_of_clashes {ds : List Demand} {id : String} (h : Clashes g ds id) :
    reconcile g function id (ds.filter fun d => d.id = id) =
      .error (.conflict function id ((kindsFor ds id).map fun p => p.2.label)
        ((kindsFor ds id).map fun p => .count p.1)) := by
  unfold reconcile
  dsimp only
  rw [kinds_group, if_neg (clashes_iff.mp h), indices_group, List.map_map]
  rfl

/-- The first variable for which the kinds clash is told of. -/
theorem bind_of_clashes {ds : List Demand} {front back : List String} {id : String}
    (hfront : ∀ i ∈ front, ¬ Clashes g ds i) (h : Clashes g ds id) (bound : Bindings) :
    bind g function ds (front ++ id :: back) bound =
      .error (.conflict function id ((kindsFor ds id).map fun p => p.2.label)
        ((kindsFor ds id).map fun p => .count p.1)) := by
  induction front generalizing bound with
  | nil => rw [List.nil_append, bind, reconcile_of_clashes h]; rfl
  | cons i front ih =>
    obtain ⟨hi, hfront⟩ := List.forall_mem_cons.mp hfront
    rw [List.cons_append, bind, reconcile_of_not_clashes hi]
    exact ih hfront _

theorem exists_eraseDups_append {id : String} {front : List String} (h : id ∉ front)
    (back : List String) :
      ∃ rest, (front ++ id :: back).eraseDups = front.eraseDups ++ id :: rest := by
  rw [List.eraseDups_append, List.cons_removeAll, if_pos (by simpa using h), List.eraseDups_cons]
  exact ⟨_, rfl⟩

/-- The first of those that a list has. -/
theorem exists_first {α : Type} {P : α → Prop} {l : List α} (h : ∃ a ∈ l, P a) :
    ∃ front a back, l = front ++ a :: back ∧ (∀ b ∈ front, ¬ P b) ∧ P a := by
  classical
  obtain ⟨a, ha, hPa⟩ := h
  obtain ⟨b, hb⟩ := Option.isSome_iff_exists.mp
    (List.find?_isSome (p := fun a => decide (P a)).mpr ⟨a, ha, by simpa using hPa⟩)
  obtain ⟨hPb, front, back, hl, hfront⟩ := List.find?_eq_some_iff_append.mp hb
  exact ⟨front, b, back, hl, fun c hc => by simpa using hfront c hc, by simpa using hPb⟩

/-- Of the variables demanded, the first for which the kinds clash is told of. -/
theorem bind_demands_of_clashes {ds front back : List Demand} {d : Demand}
    (hds : ds = front ++ d :: back)
    (hfront : ∀ c ∈ front, ¬ Clashes g ds c.id) (h : Clashes g ds d.id) :
    bind g function ds (ds.map Demand.id).eraseDups ∅ =
      .error (.conflict function d.id ((kindsFor ds d.id).map fun p => p.2.label)
        ((kindsFor ds d.id).map fun p => .count p.1)) := by
  have hnew : d.id ∉ front.map Demand.id := by
    intro hid
    obtain ⟨c, hc, hcd⟩ := List.mem_map.mp hid
    exact hfront c hc (hcd ▸ h)
  obtain ⟨rest, hids⟩ := exists_eraseDups_append hnew (back.map Demand.id)
  have hfirst : ∀ id ∈ (front.map Demand.id).eraseDups, ¬ Clashes g ds id := by
    intro id hid
    obtain ⟨c, hc, rfl⟩ := List.mem_map.mp (List.mem_eraseDups.mp hid)
    exact hfront c hc
  have hall : (ds.map Demand.id).eraseDups = (front.map Demand.id).eraseDups ++ d.id :: rest := by
    rw [hds, List.map_append, List.map_cons, hids]
  rw [hall, bind_of_clashes hfirst h]

/-- Without a clash each variable is bound. -/
theorem exists_bind (function : String) {ds : List Demand} {ids : List String}
    (h : ∀ id ∈ ids, ¬ Clashes g ds id)
    (bound : Bindings) : ∃ b, bind g function ds ids bound = .ok b ∧
      ∀ id, b.get? id = if id ∈ ids then some (bindingFor ds id) else bound.get? id := by
  induction ids generalizing bound with
  | nil => exact ⟨bound, rfl, fun id => by simp⟩
  | cons i ids ih =>
    obtain ⟨hi, hids⟩ := List.forall_mem_cons.mp h
    obtain ⟨b, hb, hget⟩ := ih hids (bound.insert i (bindingFor ds i))
    refine ⟨b, ?_, fun id => ?_⟩
    · rw [bind, reconcile_of_not_clashes hi]
      exact hb
    · rw [hget, Catalog.get?_insert]
      by_cases hid : id = i
      · subst hid; simp
      · simp [hid]

/-! ## Replacing variables -/

theorem exists_substitute (function : String) {ids : List String} {b : Bindings}
    (hb : ∀ id ∈ ids, (b.get? id).isSome) :
    ∀ {t : Ty}, t.Within ids → ∃ s, t.substitute function b = .ok s
  | .any, _ => ⟨_, rfl⟩
  | .concrete _, _ => ⟨_, rfl⟩
  | .collection t, h => by
    obtain ⟨s, hs⟩ := exists_substitute function hb (t := t) h
    exact ⟨.collection s, by rw [Ty.substitute, hs]; rfl⟩
  | .var v, h => by
    obtain ⟨c, hc⟩ := Option.isSome_iff_exists.mp (hb v.id h)
    exact ⟨c.type, by rw [Ty.substitute, hc]⟩

theorem exists_substituteAll {b : Bindings} {ts : List Ty}
    (h : ∀ t ∈ ts, ∃ s, t.substitute function b = .ok s) :
      ∃ ss, substituteAll function b ts = .ok ss := by
  induction ts with
  | nil => exact ⟨[], rfl⟩
  | cons t ts ih =>
    obtain ⟨⟨s, hs⟩, hts⟩ := List.forall_mem_cons.mp h
    obtain ⟨ss, hss⟩ := ih hts
    exact ⟨s :: ss, by rw [substituteAll, hs, hss]; rfl⟩

/-! ## Matches -/

variable {expected given : List Ty} {fs : List Fit} {m : Match} {id : String}

theorem run_of_length_ne (h : expected.length ≠ given.length) : run g function expected given =
    .error (.arity function (.count expected.length) (.count given.length)) := by
  unfold run
  rw [if_pos h]
  rfl

theorem run_of_length (h : expected.length = given.length) : run g function expected given = (do
    let fs ← fits g function 0 (expected.zip given)
    let b ← bind g function (demands 0 fs) ((demands 0 fs).map Demand.id).eraseDups ∅
    return ⟨← substituteAll function b (fs.map Fit.type), b⟩) := by
  unfold run
  rw [if_neg (not_not_intro h)]

/-- Just the variables demanded are bound, each to what is given for it. -/
def Binds (ds : List Demand) (b : Bindings) : Prop :=
  ∀ id, b.get? id = if id ∈ ds.map Demand.id then some (bindingFor ds id) else none

theorem Binds.get?_eq_some_iff {ds : List Demand} {b : Bindings} {c : Binding} (h : Binds ds b) :
    b.get? id = some c ↔ id ∈ ds.map Demand.id ∧ c = bindingFor ds id := by
  rw [h id]
  split <;> simp_all [eq_comm]

theorem Binds.mem_iff {ds : List Demand} {b : Bindings} (h : Binds ds b) :
    id ∈ b ↔ id ∈ ds.map Demand.id := by
  rw [← Catalog.get?_isSome_iff, h id]
  split <;> simp_all

/-- Positions that fit without a clash bind their variables; then these are replaced. -/
theorem exists_run_eq (function : String) (hlength : expected.length = given.length)
    (hfs : (expected.zip given).map (fun p => p.1.fit? g p.2) = fs.map some)
    (h : ∀ d ∈ demands 0 fs, ¬ Clashes g (demands 0 fs) d.id) :
    ∃ b, Binds (demands 0 fs) b ∧ run g function expected given =
      (substituteAll function b (fs.map Fit.type)).map fun ts => ⟨ts, b⟩ := by
  have hids : ∀ id ∈ ((demands 0 fs).map Demand.id).eraseDups, ¬ Clashes g (demands 0 fs) id := by
    intro id hid
    obtain ⟨d, hd, rfl⟩ := List.mem_map.mp (List.mem_eraseDups.mp hid)
    exact h d hd
  obtain ⟨b, hb, hget⟩ := exists_bind function hids ∅
  refine ⟨b, fun id => ?_, ?_⟩
  · rw [hget, Catalog.get?_empty]
    simp only [List.mem_eraseDups]
  · rw [run_of_length hlength, fits_eq_ok_iff.mpr hfs]
    show (bind g function (demands 0 fs) _ ∅ >>= fun b => _) = _
    rw [hb]
    show (substituteAll function b (fs.map Fit.type) >>= _) = _
    cases substituteAll function b (fs.map Fit.type) <;> rfl

/-- Without a clash all positions are matched, and each variable is bound. -/
theorem exists_run (function : String) (hexpected : ∀ e ∈ expected, e.shallow = true)
    (hgiven : ∀ t ∈ given, t.isGround = true) (hlength : expected.length = given.length)
    (hfs : (expected.zip given).map (fun p => p.1.fit? g p.2) = fs.map some)
    (h : ∀ d ∈ demands 0 fs, ¬ Clashes g (demands 0 fs) d.id) :
    ∃ m, run g function expected given = .ok m ∧
      substituteAll function m.bindings (fs.map Fit.type) = .ok m.types ∧
      ∀ d ∈ demands 0 fs, m.bindings.get? d.id = some (bindingFor (demands 0 fs) d.id) := by
  have hps : ∀ p ∈ expected.zip given, p.1.shallow = true ∧ p.2.isGround = true := fun p hp =>
    ⟨hexpected _ (List.of_mem_zip hp).1, hgiven _ (List.of_mem_zip hp).2⟩
  obtain ⟨b, hb, hrun⟩ := exists_run_eq function hlength hfs h
  have hwithin := within_of_fits (i := 0) hps hfs fun d hd =>
    List.mem_map_of_mem (f := Demand.id) hd
  obtain ⟨ts, hts⟩ := exists_substituteAll fun t ht =>
    exists_substitute function (b := b) (fun id hid =>
      Option.isSome_of_eq_some (hb.get?_eq_some_iff.mpr ⟨hid, rfl⟩)) (hwithin t ht)
  exact ⟨⟨ts, b⟩, by rw [hrun, hts]; rfl, hts, fun d hd =>
    hb.get?_eq_some_iff.mpr ⟨List.mem_map_of_mem hd, rfl⟩⟩

/-- A match that is made has every position fit, without a clash. -/
theorem exists_fits_of_run (h : run g function expected given = .ok m) :
    expected.length = given.length ∧
      ∃ fs, (expected.zip given).map (fun p => p.1.fit? g p.2) = fs.map some ∧
        ∀ d ∈ demands 0 fs, ¬ Clashes g (demands 0 fs) d.id := by
  by_cases hlength : expected.length = given.length
  · rw [run_of_length hlength] at h
    obtain ⟨fs, hfs, h⟩ := bind_eq_ok_iff.mp h
    obtain ⟨b, hb, -⟩ := bind_eq_ok_iff.mp h
    refine ⟨hlength, fs, fits_eq_ok_iff.mp hfs, fun d hd hclash => ?_⟩
    obtain ⟨front, c, back, hds, hfront, hclash⟩ :=
      exists_first (P := fun d => Clashes g (demands 0 fs) d.id) ⟨d, hd, hclash⟩
    cases (bind_demands_of_clashes hds hfront hclash).symm.trans hb
  · rw [run_of_length_ne hlength] at h
    cases h

theorem exists_binds_of_run (h : run g function expected given = .ok m) :
    expected.length = given.length ∧
      ∃ fs, (expected.zip given).map (fun p => p.1.fit? g p.2) = fs.map some ∧
        (∀ d ∈ demands 0 fs, ¬ Clashes g (demands 0 fs) d.id) ∧ Binds (demands 0 fs) m.bindings ∧
        substituteAll function m.bindings (fs.map Fit.type) = .ok m.types := by
  obtain ⟨hlength, fs, hfs, hclash⟩ := exists_fits_of_run h
  obtain ⟨b, hb, hrun⟩ := exists_run_eq function hlength hfs hclash
  obtain ⟨ts, hts, rfl⟩ := map_eq_ok_iff.mp (hrun.symm.trans h)
  exact ⟨hlength, fs, hfs, hclash, hb, hts⟩

/-! ## What a match comes to -/

/-- What is ruled is what matching comes to. -/
theorem Ruling.run_eq {r : Outcome Unit} (hexpected : ∀ e ∈ expected, e.shallow = true)
    (hgiven : ∀ t ∈ given, t.isGround = true) (h : Ruling g function expected given r) :
    (run g function expected given).map (fun _ => ()) = r := by
  -- the candidates are those demanded by the positions as they fit
  have fitted {ds : List Demand} (hds : Candidates g 0 (expected.zip given) ds) :
      ∃ fs, (expected.zip given).map (fun p => p.1.fit? g p.2) = fs.map some ∧
        ds = demands 0 fs := by
    obtain ⟨fs, hfs⟩ := exists_fits function hds.meets 0
    have hfs := fits_eq_ok_iff.mp hfs
    have hshallow : ∀ p ∈ expected.zip given, p.1.shallow = true := fun p hp =>
      hexpected _ (List.of_mem_zip hp).1
    exact ⟨fs, hfs, hds.unique (candidates_demands hshallow hfs)⟩
  cases h with
  | arity h => rw [run_of_length_ne h]; rfl
  | mismatch hlength hzip hfront h =>
    rw [run_of_length hlength, hzip, fits_eq_error hfront h, Nat.zero_add]
    rfl
  | @conflict front back d hlength hds hfront h =>
    obtain ⟨fs, hfs, hdemands⟩ := fitted hds
    rw [run_of_length hlength, fits_eq_ok_iff.mpr hfs]
    show (bind g function (demands 0 fs) _ ∅ >>= _).map _ = _
    rw [← hdemands, bind_demands_of_clashes rfl hfront h]
    rfl
  | success hlength hds h =>
    obtain ⟨fs, hfs, rfl⟩ := fitted hds
    obtain ⟨m, hm, -⟩ := exists_run function hexpected hgiven hlength hfs h
    rw [hm]
    rfl

/-- Something is ruled of all types given. -/
theorem exists_ruling (g : Agreement) (function : String) (given : List Ty)
    (hexpected : ∀ e ∈ expected, e.shallow = true) : ∃ r, Ruling g function expected given r := by
  by_cases hlength : expected.length = given.length
  · by_cases hmeets : ∀ p ∈ expected.zip given, p.1.Meets g p.2
    · obtain ⟨fs, hfs⟩ := exists_fits function hmeets 0
      have hds := candidates_demands (i := 0)
        (fun p hp => hexpected _ (List.of_mem_zip hp).1) (fits_eq_ok_iff.mp hfs)
      by_cases hclash : ∃ d ∈ demands 0 fs, Clashes g (demands 0 fs) d.id
      · obtain ⟨front, d, back, hdemands, hfront, h⟩ := exists_first hclash
        rw [hdemands] at hds hfront h
        exact ⟨_, .conflict hlength hds hfront h⟩
      · exact ⟨_, .success hlength hds fun d hd h => hclash ⟨d, hd, h⟩⟩
    · have hmeets : ∃ p ∈ expected.zip given, ¬ p.1.Meets g p.2 := by simpa using hmeets
      obtain ⟨front, ⟨e, t⟩, back, hzip, hfront, h⟩ := exists_first hmeets
      exact ⟨_, .mismatch hlength hzip (fun p hp => Classical.not_not.mp (hfront p hp)) h⟩
  · exact ⟨_, .arity hlength⟩

/-- Matching comes to just what is ruled, and what a conflict names is in order of position. -/
theorem run_iff_ruling (hexpected : ∀ e ∈ expected, e.shallow = true)
    (hgiven : ∀ t ∈ given, t.isGround = true) :
    (∀ r, (run g function expected given).map (fun _ => ()) = r ↔
      Ruling g function expected given r) ∧
      ∀ ds id, Candidates g 0 (expected.zip given) ds →
        (kindsFor ds id).Pairwise fun p q => p.1 < q.1 := by
  refine ⟨fun r => ⟨fun h => ?_, Ruling.run_eq hexpected hgiven⟩, fun ds id hds =>
    pairwise_kindsFor hds.ascending id⟩
  obtain ⟨r', hr'⟩ := exists_ruling g function given hexpected
  obtain rfl := (hr'.run_eq hexpected hgiven).symm.trans h
  exact hr'

/-- Days and moments stand in for one another, so it is the second variable that conflicts. -/
theorem run_iff_ruling_conflict :
    let g : Agreement := ⟨[(.date, .datetime)]⟩
    let T : Ty := .var { id := "T" }
    let U : Ty := .var { id := "U" }
    let expected : List Ty := [.scalarOrColumn T, .collection U, T, .union [.concrete .boolean, U]]
    let given : List Ty := [.collection (.concrete .date), .collection (.concrete .number),
      .concrete .datetime, .concrete .string]
    (∀ e ∈ expected, e.shallow = true) ∧ (∀ t ∈ given, t.isGround = true) ∧
      Ruling g "f" expected given
        (.error (.conflict "f" "U" ["Number", "String"] [.count 1, .count 3])) := by
  intro g T U expected given
  have hexpected : ∀ e ∈ expected, e.shallow = true := by decide
  have hgiven : ∀ t ∈ given, t.isGround = true := by decide
  exact ⟨hexpected, hgiven, ((run_iff_ruling hexpected hgiven).1 _).mp rfl⟩

end Match

end SqlDraft
