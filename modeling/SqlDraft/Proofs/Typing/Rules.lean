import SqlDraft.Proofs.Typing.Shape
import SqlDraft.Signature.Builtin

/-! The typing rules of the functions at hand from the start (`Builtin.Gives`), said of the data of
the arguments and of which of them are columns. A call on arguments that have the types of values is
made just when a rule gives it a type, and then it has that type
(`Builtin.exists_applyExprs_iff`). -/

namespace SqlDraft

open Sql

open Ty

/-- The type that a function gives to a call on arguments of the types. -/
inductive Builtin.Gives : Builtin → List Ty → Ty → Prop
  | arithmetic {op : Arithmetic} {s t : Ty} (hs : s.Carries [.number, .string])
      (ht : t.Carries [.number, .string]) (h : s.inner.Agrees t.inner) :
      Gives (.arithmetic op) [s, t]
        (inColumn (s.isCollection || t.isCollection) (s.inner.orElse t.inner))
  | comparison {op : Comparison} {s t : Ty} (h : s.inner.Agrees t.inner) :
      Gives (.comparison op) [s, t] (.concrete .boolean)
  | connective {op : Connective} {s t : Ty} (hs : s.Carries [.boolean])
      (ht : t.Carries [.boolean]) :
      Gives (.connective op) [s, t] (.concrete .boolean)
  | not {t : Ty} (ht : t.Carries [.boolean]) : Gives .not [t] (.concrete .boolean)
  | like {s t : Ty} (hs : s.Carries [.string]) (ht : t.Carries [.string]) :
      Gives .like [s, t] (.concrete .boolean)
  | ilike {s t : Ty} (hs : s.Carries [.string]) (ht : t.Carries [.string]) :
      Gives .ilike [s, t] (.concrete .boolean)
  | member {s t : Ty} (ht : t.Columnar) (h : s.inner.Agrees t.inner) :
      Gives .member [s, t] (.concrete .boolean)
  | isNull {t : Ty} : Gives .isNull [t] (.concrete .boolean)
  | isNotNull {t : Ty} : Gives .isNotNull [t] (.concrete .boolean)
  | extreme {op : Aggregate} {t : Ty} (hop : op = .max ∨ op = .min) (ht : t.Columnar) :
      Gives (.aggregate op) [t] t.inner
  | total {op : Aggregate} {t : Ty} (hop : op = .sum ∨ op = .avg) (ht : t.Columnar)
      (hk : t.Carries [.number]) : Gives (.aggregate op) [t] t.inner
  | count {t : Ty} (ht : t.Columnar) : Gives (.aggregate .count) [t] (.concrete .number)
  | countAll : Gives .countAll [] (.concrete .number)
  | order {d : Direction} {t : Ty} (ht : t.Columnar) : Gives (.order d) [t] (.collection t.inner)

/-! ## Calls -/

namespace Builtin

variable {b : Builtin} {ts : List Ty} {t : Ty} {c d : Bool} {j k : Option Kind}

/-- A call on arguments of the types is matched, and its result has the type. -/
def Settles (b : Builtin) (ts : List Ty) (t : Ty) : Prop :=
  ∃ m, Match.run .strict b.name b.params ts = .ok m ∧ b.signature.resultType m = .ok t

theorem exists_applyExprs_iff_settles {args : List Expr} :
    (∃ e, b.signature.applyExprs args = .ok e ∧ e.type = t) ↔
      b.Settles (args.map Expr.type) t ∧ t.isResolved = true := by
  constructor
  · rintro ⟨e, he, rfl⟩
    obtain ⟨m, hm, he⟩ := bind_eq_ok_iff.mp he
    obtain ⟨t, ht, he⟩ := bind_eq_ok_iff.mp he
    split at he
    · next hresolved =>
      cases he
      exact ⟨⟨m, hm, ht⟩, hresolved⟩
    · cases he
  · rintro ⟨⟨m, hm, ht⟩, hresolved⟩
    refine ⟨.call ⟨b.name, t, m.types, m.bindings⟩ args, ?_, rfl⟩
    refine bind_eq_ok_iff.mpr ⟨m, hm, bind_eq_ok_iff.mpr ⟨t, ht, ?_⟩⟩
    rw [if_pos hresolved]
    rfl

theorem settles_fixed_iff {κ : Kind} (h : b.returns = .fixed (.concrete κ)) :
    b.Settles ts t ↔ (∃ m, Match.run .strict b.name b.params ts = .ok m) ∧ t = .concrete κ := by
  have hresult (m : Match) : b.signature.resultType m = .ok (.concrete κ) := by
    unfold Signature.resultType
    rw [show b.signature.returns = _ from h]
    rfl
  constructor
  · rintro ⟨m, hm, ht⟩
    exact ⟨⟨m, hm⟩, (Except.ok.inj ((hresult m).symm.trans ht)).symm⟩
  · rintro ⟨⟨m, hm⟩, rfl⟩
    exact ⟨m, hm, hresult m⟩

/-- A function of one column whose result is told by the data of the column. -/
theorem settles_column_iff {v : TypeVar} (wrap : Bool) (hp : b.params = [.collection (.var v)])
    (hr : b.returns = .fixed (inColumn wrap (.var v))) : b.Settles [shaped c k] t ↔
      ((shaped c k).Columnar ∧ (shaped c k).Carries v.bound) ∧
        t = inColumn wrap (shaped c k).inner := by
  unfold Settles
  rw [hp, inner_shaped]
  have hresult {m : Match} {is : List Nat} (h : m.bindings.get? v.id = some ⟨is, .ofKind? k⟩) :
      b.signature.resultType m = .ok (inColumn wrap (.ofKind? k)) := by
    unfold Signature.resultType
    rw [show b.signature.returns = _ from hr]
    cases wrap <;> simp [inColumn, Ty.substitute, h, Except.map]
  constructor
  · rintro ⟨m, hm, ht⟩
    obtain ⟨f, hf⟩ := Match.exists_fit_of_run_single hm
    obtain ⟨hcolumn, rfl⟩ := fit?_collection_var.mp hf
    obtain ⟨m', hm', hbound⟩ := Match.exists_run_single b.name rfl isGround_shaped hf
    obtain rfl := Except.ok.inj (hm.symm.trans hm')
    obtain ⟨is, his⟩ := hbound v k rfl
    exact ⟨hcolumn, (Except.ok.inj ((hresult his).symm.trans ht)).symm⟩
  · rintro ⟨hcolumn, rfl⟩
    have hf := fit?_collection_var.mpr ⟨hcolumn, rfl⟩
    obtain ⟨m, hm, hbound⟩ := Match.exists_run_single b.name rfl isGround_shaped hf
    obtain ⟨is, his⟩ := hbound v k rfl
    exact ⟨m, hm, hresult his⟩

/-- A function of two arguments with data of one kind that tells of them what is true or not. -/
theorem settles_concretes_iff {κ : Kind} (h : b.returns = .fixed (.concrete .boolean))
    (hp : b.params = [.scalarOrColumn (.concrete κ), .scalarOrColumn (.concrete κ)]) :
    b.Settles [shaped c j, shaped d k] t ↔
      ((shaped c j).Carries [κ] ∧ (shaped d k).Carries [κ]) ∧ t = .concrete .boolean := by
  rw [settles_fixed_iff h, hp]
  exact and_congr_left' (Match.exists_run_pair_iff rfl rfl isGround_shaped isGround_shaped
    fit?_scalarOrColumn_concrete fit?_scalarOrColumn_concrete)

/-- A function of anything that tells of it what is true or not. -/
theorem settles_any_iff {s : Ty} (h : b.returns = .fixed (.concrete .boolean))
    (hp : b.params = [.any])
    (hs : s.isGround = true) : b.Settles [s] t ↔ t = .concrete .boolean := by
  rw [settles_fixed_iff h, hp]
  refine and_iff_right ?_
  obtain ⟨m, hm, -⟩ := Match.exists_run_single b.name (e := .any) rfl hs rfl
  exact ⟨m, hm⟩

/-! ## Each family of functions -/

theorem resultType_arithmetic {op : Arithmetic} {m : Match} {is : List Nat}
    (htypes : Match.substituteAll (arithmetic op).name m.bindings
      [inColumn c (.var summand), inColumn d (.var summand)] = .ok m.types)
    (h : m.bindings.get? summand.id = some ⟨is, .ofKind? k⟩) :
    (arithmetic op).signature.resultType m = .ok (inColumn (c || d) (.ofKind? k)) := by
  have hcolumn (x : Bool) : (inColumn x (.var summand)).substitute (arithmetic op).name m.bindings =
      .ok (inColumn x (.ofKind? k)) := by
    cases x <;> simp [inColumn, Ty.substitute, h, Except.map]
  have htypes : m.types = [inColumn c (.ofKind? k), inColumn d (.ofKind? k)] := by
    simpa [Match.substituteAll, hcolumn, eq_comm, bind, Except.bind, pure, Except.pure] using htypes
  have his (x : Bool) : (inColumn x (.ofKind? k)).isCollection = x := isCollection_shaped
  show Except.ok (sharedType m.types m.bindings) = _
  unfold sharedType
  rw [htypes, show m.bindings.get? "T" = _ from h]
  simp only [List.any_cons, List.any_nil, his, Bool.or_false, Option.elim_some]
  rfl

theorem settles_arithmetic_iff {op : Arithmetic} :
    (arithmetic op).Settles [shaped c j, shaped d k] t ↔
      (arithmetic op).Gives [shaped c j, shaped d k] t := by
  have made (hs : (shaped c j).Carries [.number, .string])
      (ht : (shaped d k).Carries [.number, .string])
      (h : (Ty.ofKind? j).Agrees (.ofKind? k)) : ∃ m, Match.run .strict (arithmetic op).name
        (arithmetic op).params [shaped c j, shaped d k] = .ok m ∧
        (arithmetic op).signature.resultType m = .ok (inColumn (c || d) (.ofKind? (j.or k))) := by
    obtain ⟨m, hm, htypes, is, his⟩ := Match.exists_run_pair_var (arithmetic op).name
      rfl rfl isGround_shaped isGround_shaped
      (fit?_scalarOrColumn_var (v := summand).mpr ⟨hs, rfl⟩)
      (fit?_scalarOrColumn_var (v := summand).mpr ⟨ht, rfl⟩) h
    exact ⟨m, hm, resultType_arithmetic htypes his⟩
  constructor
  · rintro ⟨m, hm, hresult⟩
    obtain ⟨hs, ht, h⟩ := (Match.exists_run_pair_var_iff rfl rfl isGround_shaped isGround_shaped
      fit?_scalarOrColumn_var fit?_scalarOrColumn_var).mp ⟨m, hm⟩
    obtain ⟨m', hm', hresult'⟩ := made hs ht h
    obtain rfl := Except.ok.inj (hm.symm.trans hm')
    obtain rfl := Except.ok.inj (hresult'.symm.trans hresult)
    have hgives : (arithmetic op).Gives _ _ :=
      .arithmetic hs ht (by rwa [inner_shaped, inner_shaped])
    rwa [inner_shaped, inner_shaped, isCollection_shaped, isCollection_shaped,
      orElse_ofKind?] at hgives
  · intro h
    cases h with
    | arithmetic hs ht h =>
      rw [inner_shaped, inner_shaped] at h
      rw [inner_shaped, inner_shaped, isCollection_shaped, isCollection_shaped, orElse_ofKind?]
      exact made hs ht h

theorem settles_comparison_iff {op : Comparison} :
    (comparison op).Settles [shaped c j, shaped d k] t ↔
      (comparison op).Gives [shaped c j, shaped d k] t := by
  rw [settles_fixed_iff rfl]
  refine (and_congr_left' (Match.exists_run_pair_var_iff rfl rfl isGround_shaped isGround_shaped
    fit?_scalarOrColumn_var fit?_scalarOrColumn_var)).trans ?_
  constructor
  · rintro ⟨⟨-, -, h⟩, rfl⟩
    exact .comparison (by rwa [inner_shaped, inner_shaped])
  · intro h
    cases h with
    | comparison h =>
      exact ⟨⟨carries_all, carries_all, by rwa [inner_shaped, inner_shaped] at h⟩, rfl⟩

theorem settles_connective_iff {op : Connective} :
    (connective op).Settles [shaped c j, shaped d k] t ↔
      (connective op).Gives [shaped c j, shaped d k] t := by
  rw [settles_concretes_iff rfl rfl]
  constructor
  · rintro ⟨⟨hs, ht⟩, rfl⟩
    exact .connective hs ht
  · intro h
    cases h with
    | connective hs ht => exact ⟨⟨hs, ht⟩, rfl⟩

theorem settles_pattern_iff (hb : b = like ∨ b = ilike) :
    b.Settles [shaped c j, shaped d k] t ↔ b.Gives [shaped c j, shaped d k] t := by
  have hreturns : b.returns = .fixed (.concrete .boolean) := by rcases hb with rfl | rfl <;> rfl
  have hparams : b.params =
      [.scalarOrColumn (.concrete .string), .scalarOrColumn (.concrete .string)] := by
    rcases hb with rfl | rfl <;> rfl
  rw [settles_concretes_iff hreturns hparams]
  constructor
  · rintro ⟨⟨hs, ht⟩, rfl⟩
    rcases hb with rfl | rfl
    · exact .like hs ht
    · exact .ilike hs ht
  · intro h
    cases h with
    | like hs ht | ilike hs ht => exact ⟨⟨hs, ht⟩, rfl⟩
    | _ => simp at hb

theorem settles_member_iff :
    member.Settles [shaped c j, shaped d k] t ↔ member.Gives [shaped c j, shaped d k] t := by
  rw [settles_fixed_iff rfl]
  refine (and_congr_left' (Match.exists_run_pair_var_iff rfl rfl isGround_shaped isGround_shaped
    fit?_scalarOrColumn_var fit?_collection_var)).trans ?_
  constructor
  · rintro ⟨⟨-, ⟨ht, -⟩, h⟩, rfl⟩
    exact .member ht (by rwa [inner_shaped, inner_shaped])
  · intro h
    cases h with
    | member ht h =>
      exact ⟨⟨carries_all, ⟨ht, carries_all⟩, by rwa [inner_shaped, inner_shaped] at h⟩, rfl⟩

theorem settles_not_iff : Builtin.not.Settles [shaped c k] t ↔
    Builtin.not.Gives [shaped c k] t := by
  rw [settles_fixed_iff rfl]
  refine (and_congr_left' (Match.exists_run_single_iff rfl isGround_shaped
    fit?_scalarOrColumn_concrete)).trans ?_
  constructor
  · rintro ⟨ht, rfl⟩
    exact .not ht
  · intro h
    cases h with
    | not ht => exact ⟨ht, rfl⟩

theorem settles_extreme_iff {op : Aggregate} (hop : op = .max ∨ op = .min) :
    (aggregate op).Settles [shaped c k] t ↔ (aggregate op).Gives [shaped c k] t := by
  rw [settles_column_iff (v := anyKind) false (by rcases hop with rfl | rfl <;> rfl)
    (by rcases hop with rfl | rfl <;> rfl)]
  constructor
  · rintro ⟨⟨ht, -⟩, rfl⟩
    exact .extreme hop ht
  · intro h
    cases h with
    | extreme _ ht => exact ⟨⟨ht, carries_all⟩, rfl⟩
    | total hop' => rcases hop with rfl | rfl <;> simp at hop'
    | count => simp at hop

theorem settles_total_iff {op : Aggregate} (hop : op = .sum ∨ op = .avg) :
    (aggregate op).Settles [shaped c k] t ↔ (aggregate op).Gives [shaped c k] t := by
  rw [settles_column_iff (v := numeric) false (by rcases hop with rfl | rfl <;> rfl)
    (by rcases hop with rfl | rfl <;> rfl)]
  constructor
  · rintro ⟨⟨ht, hk⟩, rfl⟩
    exact .total hop ht hk
  · intro h
    cases h with
    | extreme hop' => rcases hop with rfl | rfl <;> simp at hop'
    | total _ ht hk => exact ⟨⟨ht, hk⟩, rfl⟩
    | count => simp at hop

theorem settles_count_iff :
    (aggregate .count).Settles [shaped c k] t ↔ (aggregate .count).Gives [shaped c k] t := by
  rw [settles_fixed_iff rfl]
  refine (and_congr_left' (Match.exists_run_single_iff rfl isGround_shaped
    fit?_collection_any)).trans ?_
  constructor
  · rintro ⟨ht, rfl⟩
    exact .count ht
  · intro h
    cases h with
    | extreme hop => simp at hop
    | total hop => simp at hop
    | count ht => exact ⟨ht, rfl⟩

theorem settles_order_iff {dir : Direction} :
    (order dir).Settles [shaped c k] t ↔ (order dir).Gives [shaped c k] t := by
  rw [settles_column_iff true rfl rfl]
  constructor
  · rintro ⟨⟨ht, -⟩, rfl⟩
    exact .order ht
  · intro h
    cases h with
    | order ht => exact ⟨⟨ht, carries_all⟩, rfl⟩

theorem settles_nullity_iff (h : b.returns = .fixed (.concrete .boolean)) (hp : b.params = [.any])
    (hb : b = isNull ∨ b = isNotNull) : b.Settles [shaped c k] t ↔ b.Gives [shaped c k] t := by
  rw [settles_any_iff h hp isGround_shaped]
  constructor
  · rintro rfl
    rcases hb with rfl | rfl
    · exact .isNull
    · exact .isNotNull
  · intro h
    rcases hb with rfl | rfl <;> cases h <;> rfl

theorem settles_countAll_iff : countAll.Settles [] t ↔ countAll.Gives [] t := by
  rw [settles_fixed_iff rfl]
  constructor
  · rintro ⟨-, rfl⟩
    exact .countAll
  · intro h
    cases h with
    | countAll => exact ⟨⟨_, rfl⟩, rfl⟩

/-! ## All functions -/

theorem Settles.length_eq (h : b.Settles ts t) : b.params.length = ts.length := by
  obtain ⟨m, hm, -⟩ := h
  exact (Match.exists_fits_of_run hm).1

theorem Gives.length_eq (h : b.Gives ts t) : b.params.length = ts.length := by
  cases h with
  | extreme hop => rcases hop with rfl | rfl <;> rfl
  | total hop => rcases hop with rfl | rfl <;> rfl
  | _ => rfl

theorem exists_shaped_of_length_one (hts : ∀ s ∈ ts, s.isResolved = true) (h : 1 = ts.length) :
    ∃ c k, ts = [shaped c k] := by
  obtain ⟨s, rfl⟩ := List.length_eq_one_iff.mp h.symm
  obtain ⟨c, k, rfl⟩ := isResolved_iff.mp (hts s List.mem_cons_self)
  exact ⟨c, k, rfl⟩

theorem exists_shaped_of_length_two (hts : ∀ s ∈ ts, s.isResolved = true) (h : 2 = ts.length) :
    ∃ c j d k, ts = [shaped c j, shaped d k] := by
  cases ts with
  | nil => cases h
  | cons s ts =>
    obtain ⟨hs, hrest⟩ := List.forall_mem_cons.mp hts
    obtain ⟨c, j, rfl⟩ := isResolved_iff.mp hs
    obtain ⟨d, k, rfl⟩ := exists_shaped_of_length_one hrest (Nat.succ.inj h)
    exact ⟨c, j, d, k, rfl⟩

theorem settles_iff_of_length (hts : ∀ s ∈ ts, s.isResolved = true)
    (hlength : b.params.length = ts.length) : b.Settles ts t ↔ b.Gives ts t := by
  cases b with
  | countAll =>
    obtain rfl := List.length_eq_zero_iff.mp hlength.symm
    exact settles_countAll_iff
  | not =>
    obtain ⟨c, k, rfl⟩ := exists_shaped_of_length_one hts hlength
    exact settles_not_iff
  | isNull =>
    obtain ⟨c, k, rfl⟩ := exists_shaped_of_length_one hts hlength
    exact settles_nullity_iff rfl rfl (.inl rfl)
  | isNotNull =>
    obtain ⟨c, k, rfl⟩ := exists_shaped_of_length_one hts hlength
    exact settles_nullity_iff rfl rfl (.inr rfl)
  | order dir =>
    obtain ⟨c, k, rfl⟩ := exists_shaped_of_length_one hts hlength
    exact settles_order_iff
  | aggregate op =>
    obtain ⟨c, k, rfl⟩ := exists_shaped_of_length_one hts (by cases op <;> exact hlength)
    cases op with
    | max => exact settles_extreme_iff (.inl rfl)
    | min => exact settles_extreme_iff (.inr rfl)
    | sum => exact settles_total_iff (.inl rfl)
    | avg => exact settles_total_iff (.inr rfl)
    | count => exact settles_count_iff
  | arithmetic op =>
    obtain ⟨c, j, d, k, rfl⟩ := exists_shaped_of_length_two hts hlength
    exact settles_arithmetic_iff
  | comparison op =>
    obtain ⟨c, j, d, k, rfl⟩ := exists_shaped_of_length_two hts hlength
    exact settles_comparison_iff
  | connective op =>
    obtain ⟨c, j, d, k, rfl⟩ := exists_shaped_of_length_two hts hlength
    exact settles_connective_iff
  | like =>
    obtain ⟨c, j, d, k, rfl⟩ := exists_shaped_of_length_two hts hlength
    exact settles_pattern_iff (.inl rfl)
  | ilike =>
    obtain ⟨c, j, d, k, rfl⟩ := exists_shaped_of_length_two hts hlength
    exact settles_pattern_iff (.inr rfl)
  | member =>
    obtain ⟨c, j, d, k, rfl⟩ := exists_shaped_of_length_two hts hlength
    exact settles_member_iff

/-- What a function gives for types that values have is the type of some value. -/
theorem Gives.isResolved (hts : ∀ s ∈ ts, s.isResolved = true) (h : b.Gives ts t) :
    t.isResolved = true := by
  have hinner {s : Ty} (hs : s.isResolved = true) : s.inner.isResolved = true := by
    obtain ⟨c, k, rfl⟩ := isResolved_iff.mp hs
    rw [inner_shaped]
    exact isResolved_shaped (c := false)
  cases h with
  | @arithmetic _ s s' =>
    obtain ⟨c, j, rfl⟩ := isResolved_iff.mp (hts s List.mem_cons_self)
    obtain ⟨d, k, rfl⟩ := isResolved_iff.mp (hts s' (List.mem_cons_of_mem _ List.mem_cons_self))
    rw [inner_shaped, inner_shaped, orElse_ofKind?]
    exact isResolved_shaped
  | extreme | total => exact hinner (hts _ List.mem_cons_self)
  | order => exact isResolved_collection_inner (hts _ List.mem_cons_self)
  | _ => rfl

/-- A call on arguments with types that values have is made just when the typing rules give it a
type, and that is the type it has. -/
theorem exists_applyExprs_iff {args : List Expr} (hargs : ∀ a ∈ args, a.type.isResolved = true) :
    (∃ e, b.signature.applyExprs args = .ok e ∧ e.type = t) ↔ b.Gives (args.map Expr.type) t := by
  have hts : ∀ s ∈ args.map Expr.type, s.isResolved = true := List.forall_mem_map.mpr hargs
  rw [exists_applyExprs_iff_settles]
  constructor
  · rintro ⟨h, -⟩
    exact (settles_iff_of_length hts h.length_eq).mp h
  · intro h
    exact ⟨(settles_iff_of_length hts h.length_eq).mpr h, h.isResolved hts⟩

end Builtin

end SqlDraft
