import SqlDraft.Proofs.Matching.Bindings

/-! Matching the same arguments once more. The types that a match settles on have neither a union
nor a variable left, though they need not be the types given: another argument may have decided a
variable, and an unknown type may have been filled in. Still the arguments meet them one by one,
with nothing left to bind (`Match.run_rematch`). -/

namespace SqlDraft

open Sql

namespace Ty

variable {g : Agreement} {function : String} {b : Bindings} {e t s : Ty} {v : TypeVar} {f : Fit}

/-! ## Types without union and variable -/

theorem isGround_ofKind? (k : Option Kind) : (ofKind? k).isGround = true := by
  cases k <;> rfl

theorem leadVar?_of_isGround : ∀ {t : Ty}, t.isGround = true → t.leadVar? = none
  | any, _ => rfl
  | concrete _, _ => rfl
  | collection t, h => leadVar?_of_isGround (t := t) h

theorem substitute_of_isGround : ∀ {t : Ty}, t.isGround = true → t.substitute function b = .ok t
  | any, _ => rfl
  | concrete _, _ => rfl
  | collection t, h => by rw [substitute, substitute_of_isGround (t := t) h]; rfl

theorem substitute_var_eq_ok_iff :
    (var v).substitute function b = .ok s ↔ ∃ c, b.get? v.id = some c ∧ c.type = s := by
  rw [substitute]
  cases b.get? v.id <;> simp

theorem isGround_of_substitute (hb : ∀ id c, b.get? id = some c → c.type.isGround = true) :
    ∀ {t s : Ty}, t.substitute function b = .ok s → s.isGround = true
  | any, _, h => by cases h; rfl
  | concrete _, _, h => by cases h; rfl
  | collection t, _, h => by
    obtain ⟨s, hbelow, rfl⟩ := map_eq_ok_iff.mp h
    exact isGround_of_substitute hb (t := t) (s := s) hbelow
  | var v, _, h => by
    obtain ⟨c, hc, rfl⟩ := substitute_var_eq_ok_iff.mp h
    exact hb v.id c hc
  | union _, _, h => by cases h

/-! ## Settled types -/

/-- The type given fits this one, which is settled: nothing in it is replaced, and no demand is
made. -/
def Settled (g : Agreement) (s t : Ty) : Prop := fit? g s t = some ⟨s, none⟩

theorem settled_any (h : s.isGround = true) : Settled g s any := by
  cases s with
  | collection s => simp [Settled, fit?, fitOfAny, leadVar?_of_isGround h]
  | union => cases h
  | var => cases h
  | _ => rfl

theorem settled_concrete {j k : Kind} (h : g.Allows j k) : Settled g (concrete j) (concrete k) := by
  simp [Settled, fit?, fitKind?, h]

theorem Settled.collection (h : Settled g s t) : Settled g (collection s) (collection t) := by
  rw [Settled, fit?.eq_def]
  exact congrArg (Option.map fun f : Fit => { f with type := Ty.collection f.type }) h

theorem settled_self : ∀ {t : Ty}, t.isGround = true → Settled g t t
  | any, _ => rfl
  | concrete k, _ => settled_concrete (g.allows_refl k)
  | Ty.collection t, h => (settled_self (t := t) h).collection

/-- A variable stays where a scalar is given, and below a collection where a column is. -/
theorem fitVar?_cases (h : fitVar? g v t = some f) : ∃ k, f.demand = some (v, k) ∧
    (t = ofKind? k ∧ f.type = var v ∨ t = Ty.collection (ofKind? k) ∧
      f.type = Ty.collection (var v)) := by
  have hmeets : Meets g (var v) t := fit?_isSome_iff.mp (Option.isSome_of_eq_some h)
  refine ⟨_, (fitVar?_eq_some h).1, ?_⟩
  cases t with
  | collection t =>
    obtain ⟨d, -, rfl⟩ := Option.map_eq_some_iff.mp h
    rcases meets_var_iff.mp hmeets with ht | ⟨k, ht, -⟩ <;> cases ht <;> exact .inr ⟨rfl, rfl⟩
  | any => cases h; exact .inl ⟨rfl, rfl⟩
  | concrete k =>
    obtain ⟨d, -, rfl⟩ := Option.map_eq_some_iff.mp h
    exact .inl ⟨rfl, rfl⟩
  | union => cases h
  | var => cases h

mutual

/-- Where a type fits and what is bound accords with the demand, it fits what the position settles
on. -/
theorem settled_of_fit? (hground : ∀ id c, b.get? id = some c → c.type.isGround = true) :
    ∀ {e t : Ty} {f : Fit} {s : Ty}, t.isGround = true → fit? g e t = some f →
      (∀ v k c, f.demand = some (v, k) → b.get? v.id = some c → Settled g c.type (ofKind? k)) →
      f.type.substitute function b = .ok s → Settled g s t
  | any, t, _, _, ht, h, _, hs => by
    cases h
    obtain rfl := Except.ok.inj ((substitute_of_isGround ht).symm.trans hs)
    exact settled_self ht
  | concrete j, t, _, _, _, h, _, hs => by
    obtain rfl := fitKind?_eq_some h
    cases hs
    exact h
  | var v, t, f, s, _, h, hbound, hs => by
    obtain ⟨k, hdemand, ⟨rfl, htype⟩ | ⟨rfl, htype⟩⟩ := fitVar?_cases h <;> rw [htype] at hs
    · obtain ⟨c, hc, rfl⟩ := substitute_var_eq_ok_iff.mp hs
      exact hbound v k c hdemand hc
    · obtain ⟨s', hs', rfl⟩ := map_eq_ok_iff.mp hs
      obtain ⟨c, hc, rfl⟩ := substitute_var_eq_ok_iff.mp hs'
      exact (hbound v k c hdemand hc).collection
  | Ty.collection e, t, f, s, ht, h, hbound, hs => by
    rcases fitCollection_eq_some h with ⟨rfl, rfl⟩ | ⟨t', f', rfl, hf', rfl⟩
    · exact settled_any (isGround_of_substitute hground hs)
    · obtain ⟨s', hs', rfl⟩ := map_eq_ok_iff.mp hs
      exact (settled_of_fit? hground (e := e) (t := t') ht hf' hbound hs').collection
  | union es, _, _, _, ht, h, hbound, hs => settled_of_fitFirst? hground ht h hbound hs

theorem settled_of_fitFirst? (hground : ∀ id c, b.get? id = some c → c.type.isGround = true) :
    ∀ {es : List Ty} {t : Ty} {f : Fit} {s : Ty}, t.isGround = true → fitFirst? g es t = some f →
      (∀ v k c, f.demand = some (v, k) → b.get? v.id = some c → Settled g c.type (ofKind? k)) →
      f.type.substitute function b = .ok s → Settled g s t
  | [], _, _, _, _, h, _, _ => by cases h
  | e :: es, _, _, _, ht, h, hbound, hs => by
    rw [fitFirst?] at h
    rcases Option.or_eq_some_iff.mp h with h | ⟨-, h⟩
    · exact settled_of_fit? hground (e := e) ht h hbound hs
    · exact settled_of_fitFirst? hground ht h hbound hs

end

end Ty

namespace Match

variable {g : Agreement} {function : String} {expected given : List Ty} {m : Match}

theorem substituteAll_eq_gather (function : String) (b : Bindings) (ts : List Ty) :
    substituteAll function b ts = gather (ts.map fun t => t.substitute function b) := by
  induction ts with
  | nil => rfl
  | cons t ts ih => rw [substituteAll, ih]; rfl

theorem substituteAll_eq_ok_iff {b : Bindings} {ts ss : List Ty} :
    substituteAll function b ts = .ok ss ↔
      ts.map (fun t => t.substitute function b) = ss.map .ok := by
  rw [substituteAll_eq_gather, gather_eq_ok_iff]

theorem demands_eq_nil {fs : List Fit} (h : ∀ f ∈ fs, f.demand = none) (i : Nat) :
    demands i fs = [] := by
  induction fs generalizing i with
  | nil => rfl
  | cons f fs ih =>
    obtain ⟨hf, hfs⟩ := List.forall_mem_cons.mp h
    rw [demands, hf]
    exact ih hfs (i + 1)

/-- The binding of a variable is met by what each position gives for it. -/
theorem settled_bindingFor {ds : List Demand} {d : Demand} (hd : d ∈ ds) (h : ¬ Clashes g ds d.id) :
    Ty.Settled g (bindingFor ds d.id).type (.ofKind? d.kind) := by
  obtain ⟨id, i, k⟩ := d
  cases k with
  | none => exact Ty.settled_any (Ty.isGround_ofKind? _)
  | some a =>
    have ha : (i, a) ∈ kindsFor ds id := mem_kindsFor_iff.mpr hd
    have hheads := not_clashes_iff.mp h a (List.mem_map_of_mem ha)
    rw [bindingFor]
    cases hkinds : kindsFor ds id with
    | nil => rw [hkinds] at ha; cases ha
    | cons p ps =>
      rw [hkinds] at hheads
      exact Ty.settled_concrete (hheads p.2 rfl).symm

/-- Settled types are matched as they are. -/
theorem run_of_settled {types : List Ty} (function : String) (hlength : types.length = given.length)
    (hground : ∀ s ∈ types, s.isGround = true) (h : ∀ p ∈ types.zip given, Ty.Settled g p.1 p.2) :
    run g function types given = .ok ⟨types, ∅⟩ := by
  have hfs : (types.zip given).map (fun p => p.1.fit? g p.2) =
      (types.map fun s => (⟨s, none⟩ : Fit)).map some := by
    calc (types.zip given).map (fun p => p.1.fit? g p.2)
        = (types.zip given).map (fun p => some ⟨p.1, none⟩) := List.map_congr_left h
      _ = ((types.zip given).map Prod.fst).map (fun s => some ⟨s, none⟩) := by
        rw [List.map_map]; rfl
      _ = _ := by rw [List.map_fst_zip (Nat.le_of_eq hlength), List.map_map]; rfl
  have hsilent : demands 0 (types.map fun s => (⟨s, none⟩ : Fit)) = [] :=
    demands_eq_nil (List.forall_mem_map.mpr fun _ _ => rfl) 0
  have htypes : substituteAll function ∅ ((types.map fun s => (⟨s, none⟩ : Fit)).map Fit.type) =
      .ok types := by
    rw [substituteAll_eq_ok_iff, List.map_map, List.map_map]
    exact List.map_congr_left fun s hs => Ty.substitute_of_isGround (hground s hs)
  rw [run_of_length hlength, fits_eq_ok_iff.mpr hfs]
  refine bind_eq_ok_iff.mpr ⟨_, rfl, bind_eq_ok_iff.mpr ⟨∅, by rw [hsilent]; rfl, ?_⟩⟩
  exact bind_eq_ok_iff.mpr ⟨types, htypes, rfl⟩

/-- The types that a match settles on have neither union nor variable, and the same arguments match
them again: each stays as it is, and nothing is bound. -/
theorem run_rematch (hgiven : ∀ t ∈ given, t.isGround = true)
    (h : run g function expected given = .ok m) :
    (∀ s ∈ m.types, s.isGround = true) ∧ run g function m.types given = .ok ⟨m.types, ∅⟩ := by
  obtain ⟨hlength, fs, hfs, hclash, hbinds, htypes⟩ := exists_binds_of_run h
  rw [substituteAll_eq_ok_iff, List.map_map] at htypes
  have hbound : ∀ id c, m.bindings.get? id = some c → c.type.isGround = true := by
    intro id c hc
    obtain ⟨-, rfl⟩ := hbinds.get?_eq_some_iff.mp hc
    exact Ty.isGround_ofKind? _
  have hground : ∀ s ∈ m.types, s.isGround = true := by
    intro s hs
    have hok : Except.ok s ∈ m.types.map (Except.ok (ε := Fault)) := List.mem_map_of_mem hs
    obtain ⟨f, -, hf⟩ := List.mem_map.mp (htypes ▸ hok)
    exact Ty.isGround_of_substitute hbound hf
  have hsame : m.types.length = given.length := by
    have hcount := congrArg List.length htypes
    have hcount' := congrArg List.length hfs
    simp only [List.length_map, List.length_zip] at hcount hcount'
    omega
  refine ⟨hground, run_of_settled function hsame hground fun p hp => ?_⟩
  obtain ⟨i, hi⟩ := List.mem_iff_getElem?.mp hp
  obtain ⟨hs, ht⟩ := List.getElem?_zip_eq_some.mp hi
  have hsub := congrArg (·[i]?) htypes
  simp only [List.getElem?_map, hs, Option.map_some] at hsub
  obtain ⟨f, hf, hsub⟩ := Option.map_eq_some_iff.mp hsub
  obtain ⟨e, t, -, ht', hfit⟩ := exists_fitted hfs hf
  obtain rfl := Option.some.inj (ht'.symm.trans ht)
  refine Ty.settled_of_fit? hbound (hgiven _ (List.mem_of_getElem? ht)) hfit
    (fun v k c hdemand hc => ?_) hsub
  obtain ⟨-, rfl⟩ := hbinds.get?_eq_some_iff.mp hc
  have hd : ⟨v.id, i, k⟩ ∈ demands 0 fs := mem_demands_iff.mpr ⟨f, v, hf, hdemand, rfl⟩
  exact settled_bindingFor hd (hclash _ hd)

/-- A moment decides a variable for a day and for two unknown types, and stands in for a day. -/
theorem run_rematch_moment :
    let g : Agreement := ⟨[(.date, .datetime)]⟩
    let T : Ty := .var { id := "T" }
    let given : List Ty :=
      [.any, .collection (.concrete .datetime), .concrete .date, .collection .any,
      .concrete .datetime, .collection (.concrete .string)]
    let types : List Ty :=
      [.concrete .datetime, .collection (.concrete .datetime), .concrete .datetime,
      .collection (.collection (.concrete .datetime)), .concrete .date,
      .collection (.concrete .string)]
    (∀ t ∈ given, t.isGround = true) ∧
      (∃ m, run g "f" [.scalarOrColumn T, T, T, .collection (.collection T), .concrete .date,
        .any] given = .ok m ∧
        m.types = types) ∧
      (∀ s ∈ types, s.isGround = true) ∧ run g "f" types given = .ok ⟨types, ∅⟩ := by
  intro g T given types
  have hgiven : ∀ t ∈ given, t.isGround = true := by decide
  obtain ⟨m, hm⟩ : ∃ m,
    run g "f" [.scalarOrColumn T, T, T, .collection (.collection T), .concrete .date, .any] given =
    .ok m := ⟨_, rfl⟩
  have h := run_rematch hgiven hm
  cases hm
  exact ⟨hgiven, ⟨_, rfl, rfl⟩, h⟩

end Match

end SqlDraft
