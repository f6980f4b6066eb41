import SqlDraft.Proofs.Matching.Rematch

/-! Whom a refused match blames. Arguments that are too many, that do not meet, or that disagree are
told of as such. Beyond those only one thing goes wrong, and it is the signature that is blamed: an
unknown type given for a collection is taken as that collection, whatever stands in it, so that a
union in it stays open (`Match.run_blames_iff`). A parameter with no union in a collection is never
blamed. -/

namespace SqlDraft

open Sql

/-- The arguments are at fault: their number, one of them, or several together. -/
def Fault.ofArguments : Fault → Bool
  | .arity .. | .mismatch .. | .conflict .. => true
  | _ => false

namespace Ty

variable {g : Agreement} {function : String} {b : Bindings} {e t s : Ty} {v : TypeVar}
    {k : Option Kind} {f : Fit}

/-! ## Unknown types -/

/-- Nothing is known of the type, below whatever collections. -/
def isBlank : Ty → Bool
  | any => true
  | collection t => t.isBlank
  | _ => false

theorem eq_of_isBlank (ht : t.isResolved = true) (h : t.isBlank = true) :
    t = any ∨ t = collection any := by
  cases t with
  | any => exact .inl rfl
  | collection t =>
    cases t with
    | any => exact .inr rfl
    | _ => simp_all [isBlank, isResolved, isAny, isConcrete]
  | _ => cases h

theorem isGround_of_isResolved (h : t.isResolved = true) : t.isGround = true := by
  cases t with
  | collection t => cases t <;> first | rfl | cases h
  | _ => first | rfl | cases h

/-- What is met by some type is met by an unknown one. -/
theorem meets_any_of_meets (h : Meets g e t) : Meets g e any := by
  induction h with
  | any => exact .any
  | union he _ ih => exact .union he ih
  | unknown he => exact .unknown he
  | kind | collection | varAny | varKind => exact .unknown fun _ he => nomatch he

theorem kind?_inner_of_isBlank (h : t.isBlank = true) : t.inner.kind? = none := by
  cases t with
  | any => rfl
  | collection t => cases t <;> first | rfl | cases h
  | _ => cases h

/-- For an unknown type no kind is recorded. -/
theorem Records.eq_none (h : Records g e t v k) (ht : t.isBlank = true) : k = none := by
  induction h with
  | here => exact kind?_inner_of_isBlank ht
  | head _ _ ih => exact ih ht
  | tail _ _ ih => exact ih ht
  | inner _ ih => exact ih ht
  | unknown => rfl

/-! ## Unions left open -/

/-- The type given meets the one expected in an alternative in which a union is left below a
collection. -/
inductive Opens (g : Agreement) : (expected given : Ty) → Prop
  | unknown {e : Ty} (h : e.unionFree = false) : Opens g (collection e) any
  | inner {e t : Ty} (h : Opens g e t) : Opens g (collection e) (collection t)
  | head {e t : Ty} {es : List Ty} (he : Meets g e t) (h : Opens g e t) :
      Opens g (union (e :: es)) t
  | tail {e t : Ty} {es : List Ty} (he : ¬ Meets g e t) (h : Opens g (union es) t) :
      Opens g (union (e :: es)) t

theorem Opens.meets (h : Opens g e t) : Meets g e t := by
  induction h with
  | unknown => exact meets_collection_iff.mpr (.inl rfl)
  | inner _ ih => exact .collection ih
  | head he => exact .union List.mem_cons_self he
  | tail _ _ ih =>
    obtain ⟨e, he, hmeets⟩ := meets_union_iff.mp ih
    exact .union (List.mem_cons_of_mem _ he) hmeets

/-- Only an unknown type leaves a union open. -/
theorem Opens.isBlank (h : Opens g e t) : t.isBlank = true := by
  induction h with
  | unknown => rfl
  | inner _ ih => exact ih
  | head _ _ ih => exact ih
  | tail _ _ ih => exact ih

theorem opens_collection_iff : Opens g (collection e) (collection t) ↔ Opens g e t :=
  ⟨fun h => by cases h with | inner h => exact h, .inner⟩

theorem opens_collection_any_iff : Opens g (collection e) any ↔ e.unionFree = false :=
  ⟨fun h => by cases h with | unknown h => exact h, .unknown⟩

theorem opens_union_cons_of_meets {es : List Ty} (he : Meets g e t) : Opens g (union (e :: es)) t ↔
    Opens g e t := by
  constructor
  · intro h
    cases h with
    | head _ h => exact h
    | tail hne => exact absurd he hne
  · exact .head he

theorem opens_union_cons_of_not_meets {es : List Ty} (he : ¬ Meets g e t) :
    Opens g (union (e :: es)) t ↔ Opens g (union es) t := by
  constructor
  · intro h
    cases h with
    | head hmeets => exact absurd hmeets he
    | tail _ h => exact h
  · exact .tail he

theorem shallow_of_unionFree : ∀ {t : Ty}, t.unionFree = true → t.shallow = true
  | any, _ => rfl
  | concrete _, _ => rfl
  | var _, _ => rfl
  | collection _, h => h

/-- Where no union stands in a collection, none is left open. -/
theorem not_opens_of_shallow (he : e.shallow = true) : ¬ Opens g e t := by
  intro h
  induction h with
  | unknown h => cases h.symm.trans he
  | inner _ ih => exact ih (shallow_of_unionFree he)
  | head _ _ ih => exact ih (Bool.and_eq_true_iff.mp he).1
  | tail _ _ ih => exact ih (Bool.and_eq_true_iff.mp he).2

theorem unionFree_of_isGround : ∀ {t : Ty}, t.isGround = true → t.unionFree = true
  | any, _ => rfl
  | concrete _, _ => rfl
  | collection t, h => unionFree_of_isGround (t := t) h

mutual

/-- A position settles on a type with a union just where it leaves one open. -/
theorem unionFree_eq_false_iff_opens : ∀ {e t : Ty} {f : Fit}, t.isGround = true →
    fit? g e t = some f → (f.type.unionFree = false ↔ Opens g e t)
  | any, _, _, ht, h => by
    cases h
    simp only [unionFree_of_isGround ht, Bool.true_eq_false, false_iff]
    exact nofun
  | concrete j, _, _, _, h => by
    rw [fitKind?_eq_some h]
    exact ⟨nofun, nofun⟩
  | var v, _, _, _, h => by
    rcases (fitVar?_eq_some h).2 with htype | htype <;> rw [htype] <;> exact ⟨nofun, nofun⟩
  | collection e, t, f, ht, h => by
    rcases fitCollection_eq_some h with ⟨rfl, rfl⟩ | ⟨s, f', rfl, hf', rfl⟩
    · exact (opens_collection_any_iff (e := e)).symm
    · rw [opens_collection_iff, ← unionFree_eq_false_iff_opens (e := e) (t := s) ht hf']
      rfl
  | union es, _, _, ht, h => unionFree_eq_false_iff_opens_first ht h

theorem unionFree_eq_false_iff_opens_first :
    ∀ {es : List Ty} {t : Ty} {f : Fit}, t.isGround = true →
    fitFirst? g es t = some f → (f.type.unionFree = false ↔ Opens g (union es) t)
  | [], _, _, _, h => by cases h
  | e :: es, t, f, ht, h => by
    rw [fitFirst?] at h
    rcases Option.or_eq_some_iff.mp h with h | ⟨hnone, h⟩
    · have he : Meets g e t := fit?_isSome_iff.mp (Option.isSome_of_eq_some h)
      rw [opens_union_cons_of_meets he, unionFree_eq_false_iff_opens (e := e) ht h]
    · rw [opens_union_cons_of_not_meets (fit?_eq_none_iff.mp hnone),
        unionFree_eq_false_iff_opens_first ht h]

end

mutual

/-- A variable that a position settles on is one that it makes a demand on. -/
theorem exists_demand_of_leadVar? : ∀ {e t : Ty} {f : Fit}, t.isGround = true →
    fit? g e t = some f → f.type.leadVar? = some v → ∃ k, f.demand = some (v, k)
  | any, _, _, ht, h, hv => by
    cases h
    cases (leadVar?_of_isGround ht).symm.trans hv
  | concrete j, _, _, _, h, hv => by
    rw [fitKind?_eq_some h] at hv
    cases hv
  | var w, _, _, _, h, hv => by
    obtain ⟨hdemand, htype⟩ := fitVar?_eq_some h
    rcases htype with htype | htype <;> rw [htype] at hv <;> cases hv <;> exact ⟨_, hdemand⟩
  | collection e, t, f, ht, h, hv => by
    rcases fitCollection_eq_some h with ⟨rfl, rfl⟩ | ⟨s, f', rfl, hf', rfl⟩
    · refine ⟨none, ?_⟩
      rw [fitOfAny] at hv ⊢
      rw [hv]
      rfl
    · exact exists_demand_of_leadVar? (e := e) (t := s) (f := f') ht hf' hv
  | union es, _, _, ht, h, hv => exists_demand_of_leadVar?_first ht h hv

theorem exists_demand_of_leadVar?_first : ∀ {es : List Ty} {t : Ty} {f : Fit}, t.isGround = true →
    fitFirst? g es t = some f → f.type.leadVar? = some v → ∃ k, f.demand = some (v, k)
  | [], _, _, _, h, _ => by cases h
  | e :: es, _, _, ht, h, hv => by
    rw [fitFirst?] at h
    rcases Option.or_eq_some_iff.mp h with h | ⟨-, h⟩
    · exact exists_demand_of_leadVar? (e := e) ht h hv
    · exact exists_demand_of_leadVar?_first ht h hv

end

/-- A union is not replaced. -/
theorem substitute_of_unionFree_eq_false : ∀ {t : Ty}, t.unionFree = false →
    ∃ text, t.substitute function b = .error (.definition function (.openUnion text))
  | union ts, _ => ⟨_, rfl⟩
  | collection t, h => by
    obtain ⟨text, ht⟩ := substitute_of_unionFree_eq_false (t := t) h
    exact ⟨text, by rw [substitute, ht]; rfl⟩

end Ty

namespace Match

variable {g : Agreement} {function : String} {expected given : List Ty} {m : Match} {fs : List Fit}

/-! ## What is accepted -/

/-- All kinds recorded for a variable may stand in for the first one. -/
def Agreed (g : Agreement) (expected given : List Ty) : Prop :=
  ∀ id i c j a, Recorded g expected given id i c →
    (∀ j b, Recorded g expected given id j b → i ≤ j) →
    Recorded g expected given id j a → g.Allows a c

/-- The arguments are as many as expected, each meets its parameter, and they agree. -/
def Accepts (g : Agreement) (expected given : List Ty) : Prop :=
  expected.length = given.length ∧ (∀ p ∈ expected.zip given, p.1.Meets g p.2) ∧
  Agreed g expected given

/-- Some position leaves a union open. -/
def LeftOpen (g : Agreement) (expected given : List Ty) : Prop :=
  ∃ p ∈ expected.zip given, p.1.Opens g p.2

theorem agreed_iff_not_clashes
    (hfs : (expected.zip given).map (fun p => p.1.fit? g p.2) = fs.map some) :
    Agreed g expected given ↔ ∀ d ∈ demands 0 fs, ¬ Clashes g (demands 0 fs) d.id := by
  have hascending (id : String) := pairwise_kindsFor (ascending_demands 0 fs) id
  simp only [Agreed, ← mem_kindsFor_demands_iff hfs]
  -- the first of the kinds is recorded before the others
  have hleast {id : String} {p q : Nat × Kind} {ps : List (Nat × Kind)}
      (hkinds : kindsFor (demands 0 fs) id = p :: ps)
      (hq : q ∈ kindsFor (demands 0 fs) id) : p.1 ≤ q.1 := by
    have hlt := hascending id
    rw [hkinds] at hq hlt
    rcases List.mem_cons.mp hq with rfl | hq
    · exact Nat.le_refl _
    · exact Nat.le_of_lt (List.rel_of_pairwise_cons hlt hq)
  constructor
  · rintro h d - ⟨p, hp, q, hq, hnot⟩
    obtain ⟨ps, hkinds⟩ := List.head?_eq_some_iff.mp hp
    have hmem : (p.1, p.2) ∈ kindsFor (demands 0 fs) d.id := hkinds ▸ List.mem_cons_self
    exact hnot (h d.id p.1 p.2 q.1 q.2 hmem (fun j b hb => hleast hkinds hb) hq)
  · intro h id i c j a hc hfirst ha
    have hheads := not_clashes_iff.mp (h _ (mem_kindsFor_iff.mp hc)) a (List.mem_map_of_mem ha)
    cases hkinds : kindsFor (demands 0 fs) id with
    | nil => rw [hkinds] at hc; cases hc
    | cons p ps =>
      have hmem : (p.1, p.2) ∈ kindsFor (demands 0 fs) id := hkinds ▸ List.mem_cons_self
      have hi : p.1 = i := Nat.le_antisymm (hleast hkinds hc) (hfirst _ _ hmem)
      obtain ⟨-, hk⟩ := demand_unique (mem_kindsFor_iff.mp (hi ▸ hmem)) (mem_kindsFor_iff.mp hc)
      cases hk
      exact hheads p.2 (by rw [hkinds]; rfl)

theorem accepts_iff_fits : Accepts g expected given ↔ expected.length = given.length ∧
    ∃ fs, (expected.zip given).map (fun p => p.1.fit? g p.2) = fs.map some ∧
      ∀ d ∈ demands 0 fs, ¬ Clashes g (demands 0 fs) d.id := by
  refine and_congr_right fun _ => ⟨?_, ?_⟩
  · rintro ⟨hmeets, hagreed⟩
    obtain ⟨fs, hfs⟩ := exists_fits "" hmeets 0
    have hfs := fits_eq_ok_iff.mp hfs
    exact ⟨fs, hfs, (agreed_iff_not_clashes hfs).mp hagreed⟩
  · rintro ⟨fs, hfs, hclash⟩
    refine ⟨fun p hp => Ty.fit?_isSome_iff.mp ?_, (agreed_iff_not_clashes hfs).mpr hclash⟩
    obtain ⟨f, -, hf⟩ := exists_fit_of_mem hfs hp
    exact Option.isSome_of_eq_some hf

/-- Arguments that are not accepted are blamed. -/
theorem exists_fault_of_not_accepts (function : String) (h : ¬ Accepts g expected given) :
    ∃ fault, run g function expected given = .error fault ∧ fault.ofArguments = true := by
  by_cases hlength : expected.length = given.length
  · by_cases hmeets : ∀ p ∈ expected.zip given, p.1.Meets g p.2
    · obtain ⟨fs, hfits⟩ := exists_fits function hmeets 0
      have hclash : ∃ d ∈ demands 0 fs, Clashes g (demands 0 fs) d.id := by
        by_contra hno
        push Not at hno
        exact h (accepts_iff_fits.mpr ⟨hlength, fs, fits_eq_ok_iff.mp hfits, hno⟩)
      obtain ⟨front, d, back, hds, hfront, hd⟩ := exists_first hclash
      refine ⟨.conflict function d.id ((kindsFor (demands 0 fs) d.id).map fun p => p.2.label)
        ((kindsFor (demands 0 fs) d.id).map fun p => .count p.1), ?_, rfl⟩
      rw [run_of_length hlength, hfits]
      show (bind g function (demands 0 fs) _ ∅ >>= fun b => _) = _
      rw [bind_demands_of_clashes hds hfront hd]
      rfl
    · push Not at hmeets
      obtain ⟨front, ⟨e, t⟩, back, hzip, hfront, hp⟩ := exists_first hmeets
      refine ⟨.mismatch function (.count front.length) e.describe t.describe, ?_, rfl⟩
      rw [run_of_length hlength, hzip,
        fits_eq_error (fun p hp => Classical.not_not.mp (hfront p hp)) hp, Nat.zero_add]
      rfl
  · exact ⟨_, run_of_length_ne hlength, rfl⟩

/-! ## What accepted arguments come to -/

theorem leftOpen_iff_fits (hgiven : ∀ t ∈ given, t.isGround = true)
    (hfs : (expected.zip given).map (fun p => p.1.fit? g p.2) = fs.map some) :
    LeftOpen g expected given ↔ ∃ t ∈ fs.map Fit.type, t.unionFree = false := by
  have hfit {p : Ty × Ty} {f : Fit} (hp : p ∈ expected.zip given) (hf : p.1.fit? g p.2 = some f) :=
    Ty.unionFree_eq_false_iff_opens (hgiven _ (List.of_mem_zip hp).2) hf
  constructor
  · rintro ⟨p, hp, hopens⟩
    obtain ⟨f, hf, hpf⟩ := exists_fit_of_mem hfs hp
    exact ⟨f.type, List.mem_map_of_mem hf, (hfit hp hpf).mpr hopens⟩
  · rintro ⟨t, ht, hopen⟩
    obtain ⟨f, hf, rfl⟩ := List.mem_map.mp ht
    have hmem : some f ∈ (expected.zip given).map fun p => p.1.fit? g p.2 :=
      hfs ▸ List.mem_map_of_mem hf
    obtain ⟨p, hp, hpf⟩ := List.mem_map.mp hmem
    exact ⟨p, hp, (hfit hp hpf).mp hopen⟩

/-- Of the types that positions settle on, those without a union are replaced once the variables are
bound. -/
theorem exists_substitute_of_fits {b : Bindings} (function : String)
    (hgiven : ∀ t ∈ given, t.isGround = true)
    (hfs : (expected.zip given).map (fun p => p.1.fit? g p.2) = fs.map some)
    (hb : Binds (demands 0 fs) b) :
    ∀ t ∈ fs.map Fit.type, t.unionFree = true → ∃ s, t.substitute function b = .ok s := by
  intro t ht hfree
  obtain ⟨f, hf, rfl⟩ := List.mem_map.mp ht
  obtain ⟨i, hi⟩ := List.mem_iff_getElem?.mp hf
  obtain ⟨e, t, -, ht, hfit⟩ := exists_fitted hfs hi
  refine exists_substitute function (fun id (hid : id ∈ (demands 0 fs).map Demand.id) => ?_)
    (Ty.within_of_leadVar? hfree fun v hv => ?_)
  · exact Option.isSome_of_eq_some (hb.get?_eq_some_iff.mpr ⟨hid, rfl⟩)
  · obtain ⟨k, hdemand⟩ := Ty.exists_demand_of_leadVar? (hgiven _ (List.mem_of_getElem? ht)) hfit hv
    exact List.mem_map_of_mem (f := Demand.id) (mem_demands_iff.mpr ⟨f, v, hi, hdemand, rfl⟩)

/-- The first type with a union is told of, if all others are replaced. -/
theorem substituteAll_of_open {b : Bindings} {ts : List Ty}
    (hb : ∀ t ∈ ts, t.unionFree = true → ∃ s, t.substitute function b = .ok s)
    (h : ∃ t ∈ ts, t.unionFree = false) :
    ∃ text, substituteAll function b ts = .error (.definition function (.openUnion text)) := by
  induction ts with
  | nil => obtain ⟨t, ht, -⟩ := h; cases ht
  | cons t ts ih =>
    obtain ⟨ht, hts⟩ := List.forall_mem_cons.mp hb
    cases hfree : t.unionFree with
    | false =>
      obtain ⟨text, herror⟩ :
        ∃ text, t.substitute function b = .error (.definition function (.openUnion text)) :=
        Ty.substitute_of_unionFree_eq_false hfree
      exact ⟨text, by rw [substituteAll, herror]; rfl⟩
    | true =>
      obtain ⟨s, hs⟩ := ht hfree
      obtain ⟨t', ht', hopen⟩ := h
      rcases List.mem_cons.mp ht' with rfl | ht'
      · cases hfree.symm.trans hopen
      · obtain ⟨text, herror⟩ := ih hts ⟨t', ht', hopen⟩
        exact ⟨text, by rw [substituteAll, hs, herror]; rfl⟩

theorem exists_run_of_accepts (function : String) (hgiven : ∀ t ∈ given, t.isGround = true)
    (h : Accepts g expected given) (hopen : ¬ LeftOpen g expected given) :
    ∃ m, run g function expected given = .ok m := by
  obtain ⟨hlength, fs, hfs, hclash⟩ := accepts_iff_fits.mp h
  obtain ⟨b, hb, hrun⟩ := exists_run_eq function hlength hfs hclash
  rw [leftOpen_iff_fits hgiven hfs] at hopen
  push Not at hopen
  obtain ⟨ts, hts⟩ := exists_substituteAll fun t ht =>
    exists_substitute_of_fits function hgiven hfs hb t ht (by simpa using hopen t ht)
  exact ⟨_, by rw [hrun, hts]; rfl⟩

theorem exists_openUnion_of_accepts (function : String) (hgiven : ∀ t ∈ given, t.isGround = true)
    (h : Accepts g expected given) (hopen : LeftOpen g expected given) :
    ∃ text, run g function expected given = .error (.definition function (.openUnion text)) := by
  obtain ⟨hlength, fs, hfs, hclash⟩ := accepts_iff_fits.mp h
  obtain ⟨b, hb, hrun⟩ := exists_run_eq function hlength hfs hclash
  obtain ⟨text, htext⟩ := substituteAll_of_open (exists_substitute_of_fits function hgiven hfs hb)
    ((leftOpen_iff_fits hgiven hfs).mp hopen)
  exact ⟨text, by rw [hrun, htext]; rfl⟩

theorem agreed_of_isBlank (h : ∀ t ∈ given, t.isBlank = true) : Agreed g expected given := by
  rintro id i c j a ⟨e, t, v, -, ht, hrecords, -⟩
  cases hrecords.eq_none (h t (List.mem_of_getElem? ht))

theorem zip_map (c : Ty → Ty) : expected.zip (expected.map c) = expected.map fun e => (e, c e) := by
  induction expected with
  | nil => rfl
  | cons e expected ih => rw [List.map_cons, List.zip_cons_cons, ih, List.map_cons]

/-- What a list of parameters makes of unknown types. -/
theorem accepts_map_iff {c : Ty → Ty} (hc : ∀ e ∈ expected, (c e).isBlank = true) :
    Accepts g expected (expected.map c) ↔ ∀ e ∈ expected, e.Meets g (c e) := by
  rw [Accepts, zip_map, List.forall_mem_map]
  exact ⟨fun h => h.2.1,
    fun h => ⟨(List.length_map _).symm, h, agreed_of_isBlank (List.forall_mem_map.mpr hc)⟩⟩

theorem exists_mem_zip (hlength : expected.length = given.length) {e : Ty} (he : e ∈ expected) :
    ∃ t, (e, t) ∈ expected.zip given := by
  obtain ⟨i, hi, rfl⟩ := List.mem_iff_getElem.mp he
  exact ⟨given[i], List.mem_iff_getElem.mpr ⟨i, by simpa [hlength] using hlength ▸ hi, by simp⟩⟩

/-! ## Whom a match blames -/

/-- A match is made, or blames the arguments, or blames the definition for a union left open. -/
theorem run_cases (g : Agreement) (function : String) (expected : List Ty)
    (hgiven : ∀ t ∈ given, t.isGround = true) :
    (Accepts g expected given ∧ ¬ LeftOpen g expected given ∧
      ∃ m, run g function expected given = .ok m) ∨
      (¬ Accepts g expected given ∧
        ∃ fault, run g function expected given = .error fault ∧ fault.ofArguments = true) ∨
      (Accepts g expected given ∧ LeftOpen g expected given ∧
        ∃ text, run g function expected given =
          .error (.definition function (.openUnion text))) := by
  by_cases h : Accepts g expected given
  · by_cases hopen : LeftOpen g expected given
    · exact .inr (.inr ⟨h, hopen, exists_openUnion_of_accepts function hgiven h hopen⟩)
    · exact .inl ⟨h, hopen, exists_run_of_accepts function hgiven h hopen⟩
  · exact .inr (.inl ⟨h, exists_fault_of_not_accepts function h⟩)

theorem exists_run_iff (hgiven : ∀ t ∈ given, t.isGround = true) :
    (∃ m, run g function expected given = .ok m) ↔
      Accepts g expected given ∧ ¬ LeftOpen g expected given := by
  rcases run_cases g function expected hgiven with
    ⟨h, hopen, hrun⟩ | ⟨h, fault, hrun, -⟩ | ⟨h, hopen, text, hrun⟩
  · exact iff_of_true hrun ⟨h, hopen⟩
  · simp [hrun, h]
  · simp [hrun, hopen]

theorem exists_fault_iff (hgiven : ∀ t ∈ given, t.isGround = true) :
    (∃ fault, run g function expected given = .error fault ∧ fault.ofArguments = true) ↔
      ¬ Accepts g expected given := by
  rcases run_cases g function expected hgiven with
    ⟨h, hopen, m, hrun⟩ | ⟨h, hrun⟩ | ⟨h, hopen, text, hrun⟩
  · simp [hrun, h]
  · exact iff_of_true hrun h
  · simp [hrun, h, Fault.ofArguments]

theorem exists_issue_iff (hgiven : ∀ t ∈ given, t.isGround = true) :
    (∃ issue, run g function expected given = .error (.definition function issue)) ↔
      Accepts g expected given ∧ LeftOpen g expected given := by
  rcases run_cases g function expected hgiven with
    ⟨h, hopen, m, hrun⟩ | ⟨h, fault, hrun, hfault⟩ | ⟨h, hopen, text, hrun⟩
  · simp [hrun, hopen]
  · refine iff_of_false ?_ fun hboth => h hboth.1
    rintro ⟨issue, hissue⟩
    cases hrun.symm.trans hissue
    cases hfault
  · exact iff_of_true ⟨_, hrun⟩ ⟨h, hopen⟩

/-- Parameters are ever blamed just when each accepts some type and one leaves a union open for an
unknown type. -/
theorem exists_blamed_iff : (∃ given issue, (∀ t ∈ given, t.isResolved = true) ∧
    run g function expected given = .error (.definition function issue)) ↔
      (∀ e ∈ expected, e.Meets g .any) ∧ ∃ e ∈ expected, e.Opens g .any ∨
      e.Opens g (.collection .any) := by
  constructor
  · rintro ⟨given, issue, hgiven, hrun⟩
    obtain ⟨⟨hlength, hmeets, -⟩, ⟨e, t⟩, hp, hopens⟩ :=
      (exists_issue_iff fun t ht => Ty.isGround_of_isResolved (hgiven t ht)).mp ⟨issue, hrun⟩
    refine ⟨fun e he => ?_, e, (List.of_mem_zip hp).1, ?_⟩
    · obtain ⟨t, ht⟩ := exists_mem_zip hlength he
      exact Ty.meets_any_of_meets (hmeets _ ht)
    · rcases Ty.eq_of_isBlank (hgiven t (List.of_mem_zip hp).2) hopens.isBlank with rfl | rfl
      · exact .inl hopens
      · exact .inr hopens
  · rintro ⟨hmeets, e, he, hopens⟩
    obtain ⟨t, hresolved, hopens⟩ : ∃ t : Ty, t.isResolved = true ∧ e.Opens g t :=
      hopens.elim (fun h => ⟨.any, rfl, h⟩) fun h => ⟨.collection .any, rfl, h⟩
    -- for every other parameter `any` is given
    obtain ⟨c, hce, hc⟩ : ∃ c : Ty → Ty, c e = t ∧ ∀ e', e' ≠ e → c e' = .any :=
      ⟨fun e' => if e' = e then t else .any, if_pos rfl, fun _ h => if_neg h⟩
    have hgiven : ∀ s ∈ expected.map c, s.isResolved = true := by
      refine List.forall_mem_map.mpr fun e' _ => ?_
      by_cases h : e' = e
      · rw [h, hce]
        exact hresolved
      · rw [hc e' h]
        rfl
    have haccepts : Accepts g expected (expected.map c) := by
      refine (accepts_map_iff fun e' _ => ?_).mpr fun e' he' => ?_ <;> by_cases h : e' = e
      · rw [h, hce]
        exact hopens.isBlank
      · rw [hc e' h]
        rfl
      · rw [h, hce]
        exact hopens.meets
      · rw [hc e' h]
        exact hmeets e' he'
    have hopen : LeftOpen g expected (expected.map c) := by
      refine ⟨(e, t), ?_, hopens⟩
      rw [zip_map]
      exact List.mem_map.mpr ⟨e, he, by rw [hce]⟩
    obtain ⟨issue, hrun⟩ :=
      (exists_issue_iff fun t ht => Ty.isGround_of_isResolved (hgiven t ht)).mpr ⟨haccepts, hopen⟩
    exact ⟨_, issue, hgiven, hrun⟩

/-- Whom a match blames. Types are matched when they are accepted and leave no union open; the
arguments are blamed just when they are not accepted, and the definition just when they are and
leave a union open. That comes about just with parameters that each accept some type and of which
one leaves a union open for an unknown type, never where no union stands in a collection; and a
parameter that accepts some type accepts an unknown one but for that. -/
theorem run_blames_iff (g : Agreement) (function : String) (expected : List Ty) :
    (∀ given, (∀ t ∈ given, t.isResolved = true) →
      ((∃ m, run g function expected given = .ok m) ↔
        Accepts g expected given ∧ ¬ LeftOpen g expected given) ∧
      ((∃ fault, run g function expected given = .error fault ∧ fault.ofArguments = true) ↔
        ¬ Accepts g expected given) ∧
      ((∃ issue, run g function expected given = .error (.definition function issue)) ↔
        Accepts g expected given ∧ LeftOpen g expected given)) ∧
    ((∃ given issue, (∀ t ∈ given, t.isResolved = true) ∧
      run g function expected given = .error (.definition function issue)) ↔
        (∀ e ∈ expected, e.Meets g .any) ∧ ∃ e ∈ expected, e.Opens g .any ∨
        e.Opens g (.collection .any)) ∧
    ((∀ e ∈ expected, e.shallow = true) → ∀ given issue, (∀ t ∈ given, t.isResolved = true) →
      run g function expected given ≠ .error (.definition function issue)) ∧
    ∀ e t m, t.isResolved = true → run g function [e] [t] = .ok m →
      ((∃ m', run g function [e] [.any] = .ok m') ↔ ¬ e.Opens g .any) := by
  refine ⟨fun given hgiven => ?_, exists_blamed_iff, fun hexpected given issue hgiven hrun => ?_,
    fun e t m ht hrun => ?_⟩
  · have hground := fun t ht => Ty.isGround_of_isResolved (hgiven t ht)
    exact ⟨exists_run_iff hground, exists_fault_iff hground, exists_issue_iff hground⟩
  · obtain ⟨-, e, he, hopens⟩ := exists_blamed_iff.mp ⟨given, issue, hgiven, hrun⟩
    exact hopens.elim (Ty.not_opens_of_shallow (hexpected e he))
      (Ty.not_opens_of_shallow (hexpected e he))
  · have hground : ∀ s ∈ [t], s.isGround = true := by simpa using Ty.isGround_of_isResolved ht
    obtain ⟨⟨-, hmeets, -⟩, -⟩ := (exists_run_iff hground).mp ⟨m, hrun⟩
    have haccepts : Accepts g [e] ([e].map fun _ => .any) :=
      (accepts_map_iff fun _ _ => rfl).mpr
        (by simpa using Ty.meets_any_of_meets (hmeets (e, t) (by simp)))
    have hopen : LeftOpen g [e] [.any] ↔ e.Opens g .any := by simp [LeftOpen]
    rw [exists_run_iff (by simp [Ty.isGround]), hopen]
    exact and_iff_right haccepts

/-- A column of which nothing is known skips the first alternative, and leaves a union open in the
second. -/
theorem run_blames_iff_column :
    let T : Ty := .var { id := "T" }
    let expected : List Ty :=
      [.union [.concrete .date, .collection (.collection (.scalarOrColumn T))], T]
    let given : List Ty := [.collection .any, .concrete .number]
    (∀ t ∈ given, t.isResolved = true) ∧
      (∃ issue, run .strict "f" expected given = .error (.definition "f" issue)) ∧
      Accepts .strict expected given ∧ LeftOpen .strict expected given := by
  intro T expected given
  have hgiven : ∀ t ∈ given, t.isResolved = true := by decide
  have hrun : ∃ issue, run .strict "f" expected given = .error (.definition "f" issue) := ⟨_, rfl⟩
  exact ⟨hgiven, hrun, ((run_blames_iff .strict "f" expected).1 given hgiven).2.2.mp hrun⟩

/-- The definition is blamed when an unknown type is given for a column of numbers or strings,
though a column of numbers is accepted. -/
theorem run_blames_unknown :
    let expected : List Ty := [.collection (.union [.concrete .number, .concrete .string])]
    Ty.isResolved .any = true ∧
      run .strict "f" expected [.any] =
        .error (.definition "f" (.openUnion "Union[Number, String]")) ∧
      ∃ m, run .strict "f" expected [.collection (.concrete .number)] = .ok m := by
  exact ⟨rfl, rfl, _, rfl⟩

end Match

end SqlDraft
