import SqlDraft.Proofs.Decimal.Count
import SqlDraft.Proofs.Decimal.Distinct

/-! How numbers that count something are written. The fewest digits that identify a whole magnitude
stand in front of the point, since the magnitude itself is found among decimals without a fraction.
So nothing but digits is written until there are too many of them, which is from `10 ^ 21` on
(`Decimal.isDigits_text_iff`); and as long as the numbers that are held are no further apart than
whole ones are, they are the number's own (`exists_text_eq_toString`). -/

namespace SqlDraft.Decimal

/-- One digit or more, and nothing else. -/
def IsDigits (s : String) : Prop := s.toList ≠ [] ∧ ∀ c ∈ s.toList, c.isDigit = true

instance (s : String) : Decidable (IsDigits s) :=
  decidable_of_iff ((!s.toList.isEmpty && s.toList.all Char.isDigit) = true) (by simp [IsDigits])

theorem isDigits_toString (n : Nat) : IsDigits (toString n) := by
  rw [IsDigits, Nat.toString_eq_ofList_toDigits, String.toList_ofList]
  exact ⟨Nat.toDigits_ne_nil, Magnitude.isDigit_toDigits n⟩

/-! ## Digits and zeros behind them -/

theorem toDigits_mul_pow {d : Nat} (hd : 0 < d) (k : Nat) :
    Nat.toDigits 10 (d * 10 ^ k) = Nat.toDigits 10 d ++ zeros k := by
  induction k with
  | zero => simp [zeros]
  | succ k ih =>
    have hpos : 0 < d * 10 ^ k := by positivity
    have hshift : d * 10 ^ (k + 1) = 10 * (d * 10 ^ k) + 0 := by ring
    rw [hshift, ← Nat.toDigits_append_toDigits (by decide) hpos (by decide), ih, Nat.toDigits_zero,
      List.append_assoc, zeros, zeros, ← List.replicate_succ']

theorem layout_of_lt {d k : Nat} (hd : 0 < d) (h : d * 10 ^ k < 10 ^ 21) :
    layout (Nat.toDigits 10 d) ((Nat.toDigits 10 d).length + k) = Nat.toDigits 10 (d * 10 ^ k) := by
  have hlength := (Nat.length_toDigits_le_iff (by decide) (by decide)).mpr h
  rw [toDigits_mul_pow hd, List.length_append, zeros, List.length_replicate] at hlength
  unfold layout wholeDigits
  dsimp only
  rw [if_pos (by omega), add_sub_cancel_left, Int.toNat_natCast, toDigits_mul_pow hd]

theorem e_mem_exponentText (e : Int) : 'e' ∈ exponentText e := List.mem_cons_self

theorem e_mem_layout_of_le {d k : Nat} (hd : 0 < d) (h : 10 ^ 21 ≤ d * 10 ^ k) :
    'e' ∈ layout (Nat.toDigits 10 d) ((Nat.toDigits 10 d).length + k) := by
  have hlength := mt (Nat.length_toDigits_le_iff (by decide) (by decide)).mp (not_lt_of_ge h)
  rw [toDigits_mul_pow hd, List.length_append, zeros, List.length_replicate] at hlength
  unfold layout wholeDigits
  dsimp only
  rw [if_neg (by omega), if_neg (by omega), if_neg (by omega)]
  split
  · exact List.mem_cons_of_mem _ (e_mem_exponentText _)
  · exact List.mem_append_right _ (e_mem_exponentText _)

/-! ## Whole magnitudes -/

namespace Scaled

theorem le_exponent_strip (fuel : Nat) (d : Scaled) : d.exponent ≤ (strip fuel d).exponent := by
  induction fuel generalizing d with
  | zero => exact le_refl _
  | succ fuel ih =>
    rw [strip]
    split
    · exact (Int.le_of_lt (Int.lt_succ _)).trans (ih _)
    · exact le_refl _

theorem value_of_exponent_nonneg {d : Scaled} (h : 0 ≤ d.exponent) : d.value = d.numerator := by
  rw [value, numerator, Nat.pow_eq, Nat.cast_mul, Nat.cast_pow, Nat.cast_ofNat, ← zpow_natCast,
    Int.toNat_of_nonneg h]

end Scaled

/-- Where a function of the first numbers gives something, the first thing found is found there or
before. -/
theorem exists_findSome?_range {α : Type} {f : Nat → Option α} {n k : Nat} (hn : n < k)
    (hf : f n ≠ none) :
    ∃ i ≤ n, ∃ a, f i = some a ∧ (List.range k).findSome? f = some a := by
  obtain ⟨rest, rfl⟩ : ∃ rest, k = n + 1 + rest := ⟨k - (n + 1), by omega⟩
  have hfirst : (List.range (n + 1)).findSome? f ≠ none := fun h =>
    hf (List.findSome?_eq_none_iff.mp h n (List.mem_range.mpr (Nat.lt_succ_self n)))
  obtain ⟨a, ha⟩ := Option.ne_none_iff_exists'.mp hfirst
  obtain ⟨i, hi, hia⟩ := List.exists_of_findSome?_eq_some ha
  refine ⟨i, Nat.le_of_lt_succ (List.mem_range.mp hi), a, hia, ?_⟩
  rw [List.range_add, List.findSome?_append, ha, Option.some_or]

namespace Magnitude

variable {m n : Magnitude} {k : Nat}

theorem value_eq (m : Magnitude) : m.value = m.mantissa * 2 ^ m.exponent := by
  have htwo : (2 : Rat) ≠ 0 := by norm_num
  have hdenominator : (m.denominator : Rat) ≠ 0 := by exact_mod_cast m.denominator_pos.ne'
  rw [value, Rat.mkRat_eq_div, Int.cast_natCast, div_eq_iff hdenominator, numerator,
    denominator, Nat.pow_eq, Nat.pow_eq]
  push_cast
  rw [pow_toNat htwo m.exponent, mul_assoc]

theorem identifies_congr {d e : Scaled} (h : d.value = e.value) :
    m.Identifies d ↔ m.Identifies e := by
  rw [identifies_iff, identifies_iff, h]

theorem identifies_of_value_eq {d : Scaled} (h : m.mantissa ≠ 0) (hd : d.value = m.value) :
    m.Identifies d := by
  rw [value_eq, ← value_exact] at hd
  exact (identifies_congr hd).mpr (identifies_exact h)

theorem identifies_shortest (h : m.mantissa ≠ 0) : m.Identifies m.shortest := by
  obtain ⟨d, hd, hvalue⟩ := exists_identifies_shortest h
  exact (identifies_congr hvalue).mpr hd

theorem exponent_of_onGrid? {e : Int} {d : Scaled} (h : m.onGrid? e = some d) : d.exponent = e := by
  unfold onGrid? at h
  dsimp only at h
  split at h
  · cases h; rfl
  · cases h; rfl
  · cases h
  · split at h
    · cases h; rfl
    · cases h; rfl
    · split at h <;> cases h <;> rfl

theorem pointPlace_of_value_eq (hk : m.value = k) (h : 0 < k) :
    m.pointPlace = (Nat.toDigits 10 k).length := by
  have hnumerator := value_eq_natCast_iff.mp hk
  have hle : m.denominator ≤ m.numerator := by
    rw [hnumerator]
    exact Nat.le_mul_of_pos_left _ h
  rw [pointPlace, if_pos hle, floor, hnumerator, Nat.mul_div_cancel _ m.denominator_pos]

/-- On the grid of whole numbers a whole magnitude is found. -/
theorem onGrid?_zero_ne_none (hk : m.value = k) (h : m.mantissa ≠ 0) : m.onGrid? 0 ≠ none := by
  have hfloor : m.gridFloor 0 = k := by
    have hone : Nat.pow 10 (0 : Int).toNat = 1 := rfl
    rw [gridFloor, neg_zero, hone, Nat.mul_one, Nat.mul_one, value_eq_natCast_iff.mp hk,
      Nat.mul_div_cancel _ m.denominator_pos]
  have hbelow : m.Identifies ⟨m.gridFloor 0, 0⟩ :=
    identifies_of_value_eq h (by rw [hfloor, hk, Scaled.value, zpow_zero, mul_one])
  unfold onGrid?
  dsimp only
  rw [decide_eq_true hbelow]
  cases decide (m.Identifies ⟨m.gridFloor 0 + 1, 0⟩) with
  | false => exact Option.some_ne_none _
  | true =>
    dsimp only
    cases m.gridHalf 0 with
    | lt => exact Option.some_ne_none _
    | gt => exact Option.some_ne_none _
    | eq =>
      dsimp only
      split
      · exact Option.some_ne_none _
      · exact Option.some_ne_none _

/-- The whole magnitudes that are held to the unit, or finer, are those below `2 ^ 53`. -/
theorem Normal.exponent_nonpos_iff (hm : m.Normal) (hk : m.value = k) :
    m.exponent ≤ 0 ↔ k < 2 ^ 53 := by
  constructor
  · intro he
    have hnumerator : m.mantissa = k * m.denominator := by
      rw [← value_eq_natCast_iff.mp hk, numerator, Int.toNat_of_nonpos he]
      exact (Nat.mul_one _).symm
    calc k ≤ k * m.denominator := Nat.le_mul_of_pos_right _ m.denominator_pos
      _ = m.mantissa := hnumerator.symm
      _ < 2 ^ 53 := hm.mantissa_lt
  · intro hsmall
    by_contra he
    have hmantissa : (2 : Rat) ^ 52 ≤ m.mantissa := by exact_mod_cast hm.le_mantissa (by omega)
    have hunit : (2 : Rat) ^ (1 : Int) ≤ 2 ^ m.exponent :=
      zpow_le_zpow_right₀ (by norm_num) (by omega)
    have hlarge : ((2 ^ 53 : Nat) : Rat) ≤ k := by
      calc ((2 ^ 53 : Nat) : Rat) = 2 ^ 52 * 2 ^ (1 : Int) := by norm_num
        _ ≤ m.mantissa * 2 ^ m.exponent := by gcongr
        _ = k := by rw [← value_eq, hk]
    exact absurd hsmall (not_lt_of_ge (Nat.cast_le.mp hlarge))

/-- No digit of the shortest decimal is behind the point: the grids up to that of the whole numbers
are tried before finer ones, and the whole magnitude is on that grid. If none of those tried is fine
enough to be that grid, the magnitude is too large to have a fraction at all. -/
theorem Normal.exponent_shortest_nonneg (hm : m.Normal) (hk : m.value = k) (h : m.mantissa ≠ 0) :
    0 ≤ m.shortest.exponent := by
  have hpos : 0 < k := by
    refine Nat.pos_of_ne_zero ?_
    rintro rfl
    exact h (value_eq_zero_iff.mp (hk.trans Nat.cast_zero))
  have hplace := pointPlace_of_value_eq hk hpos
  obtain ⟨place, hplace'⟩ :=
    Nat.exists_eq_succ_of_ne_zero (Nat.length_toDigits_pos (b := 10) (n := k)).ne'
  rw [hplace'] at hplace
  refine le_trans ?_ (Scaled.le_exponent_strip _ _)
  by_cases hfew : place < 17
  · have hgrid : m.onGrid? (m.pointPlace - (place + 1)) ≠ none := by
      rw [hplace, Nat.cast_succ, sub_self]
      exact onGrid?_zero_ne_none hk h
    obtain ⟨n, hn, d, hd, htries⟩ :=
      exists_findSome?_range (f := fun n : Nat => m.onGrid? (m.pointPlace - (n + 1))) hfew hgrid
    rw [htries, Option.getD_some, exponent_of_onGrid? hd, hplace]
    omega
  · cases htries : (List.range 17).findSome? fun n : Nat => m.onGrid? (m.pointPlace - (n + 1)) with
    | some d =>
      obtain ⟨n, hn, hd⟩ := List.exists_of_findSome?_eq_some htries
      have hlt := List.mem_range.mp hn
      rw [Option.getD_some, exponent_of_onGrid? hd, hplace]
      omega
    | none =>
      have hexponent : 0 ≤ m.exponent := by
        by_contra he
        have hsmall := (hm.exponent_nonpos_iff hk).mp (by omega)
        have hlength := (Nat.length_toDigits_le_iff (b := 10) (n := k) (k := 17)
          (by decide) (by decide)).mpr (by omega)
        omega
      rw [Option.getD_none, exact, if_pos hexponent]

/-! ## The order of magnitudes -/

theorem low_le_value (m : Magnitude) : m.low * (2 : Rat) ^ m.exponent ≤ 4 * m.value := by
  have hlow : m.low ≤ 4 * m.mantissa := Nat.sub_le _ _
  rw [value_eq, ← mul_assoc]
  gcongr
  exact_mod_cast hlow

theorem value_lt_high (m : Magnitude) : 4 * m.value < m.high * (2 : Rat) ^ m.exponent := by
  have hhigh : 4 * m.mantissa < m.high := Nat.lt_add_of_pos_right (by decide)
  rw [value_eq, ← mul_assoc]
  gcongr
  exact_mod_cast hhigh

theorem Normal.high_le_of_before (hm : m.Normal) (hn : n.Normal) (hb : m.Before n) :
    (m.high : Rat) * 2 ^ m.exponent ≤ n.low * 2 ^ n.exponent := by
  obtain ⟨j, hj⟩ := hb.exists_exponent_eq
  have hle : m.high ≤ n.low * 2 ^ j := by
    rcases hm.high_le_low hn hj hb with h | ⟨h, -⟩
    · exact h.le
    · exact h.le
  rw [low_mul_eq hj]
  gcongr

/-- Magnitudes come one after another as their values do. -/
theorem Normal.before_iff (hm : m.Normal) (hn : n.Normal) : m.Before n ↔ m.value < n.value := by
  have before_lt {m n : Magnitude} (hm : m.Normal) (hn : n.Normal) (hb : m.Before n) :
      m.value < n.value := by
    have := m.value_lt_high
    have := hm.high_le_of_before hn hb
    have := n.low_le_value
    linarith
  refine ⟨before_lt hm hn, fun h => ?_⟩
  rcases hm.before_or_eq hn with hb | rfl | hb
  · exact hb
  · exact absurd h (lt_irrefl _)
  · exact absurd h (lt_asymm (before_lt hn hm hb))

theorem Normal.eq_of_value_eq (hm : m.Normal) (hn : n.Normal) (h : m.value = n.value) : m = n := by
  rcases hm.before_or_eq hn with hb | he | hb
  · exact absurd h ((hm.before_iff hn).mp hb).ne
  · exact he
  · exact absurd h ((hn.before_iff hm).mp hb).ne'

/-! ## Where the digits grow too many -/

/-- The number `10 ^ 21`, the least of those that have more digits than are written in a row. -/
def crowded : Magnitude where
  mantissa := 7629394531250000
  exponent := 17

theorem normal_crowded : crowded.Normal where
  mantissa_lt := by decide
  le_exponent := by decide
  le_mantissa _ := by decide
  narrowBelow_iff := by decide

theorem value_crowded : crowded.value = (10 : Rat) ^ 21 := by
  rw [value_eq, crowded]
  norm_num

/-- A whole magnitude is below the bound just when the decimal it is written as is. -/
theorem Normal.numerator_shortest_lt_iff (hm : m.Normal) (hk : m.value = k) (h : m.mantissa ≠ 0) :
    m.shortest.numerator < 10 ^ 21 ↔ k < 10 ^ 21 := by
  have hvalue := Scaled.value_of_exponent_nonneg (hm.exponent_shortest_nonneg hk h)
  have hidentifies := identifies_shortest h
  have hnumerator : m.shortest.numerator < 10 ^ 21 ↔ m.shortest.value < (10 : Rat) ^ 21 := by
    rw [hvalue]
    norm_cast
  have hcount : k < 10 ^ 21 ↔ m.value < (10 : Rat) ^ 21 := by
    rw [hk]
    norm_cast
  rw [hnumerator, hcount, ← value_crowded]
  rcases lt_trichotomy m.value crowded.value with hlt | heq | hgt
  · refine iff_of_true ?_ hlt
    have hbefore := hm.high_le_of_before normal_crowded ((hm.before_iff normal_crowded).mpr hlt)
    have hlow : (crowded.low : Rat) * 2 ^ crowded.exponent < 4 * crowded.value := by
      rw [value_crowded, low, crowded]
      norm_num
    linarith [hidentifies.le_high.1]
  · obtain rfl := hm.eq_of_value_eq normal_crowded heq
    have hshortest : crowded.shortest = ⟨1, 21⟩ := by decide +kernel
    rw [hshortest, value_crowded, Scaled.value]
    norm_num
  · refine iff_of_false ?_ (lt_asymm hgt)
    have hbefore := normal_crowded.high_le_of_before hm ((normal_crowded.before_iff hm).mpr hgt)
    linarith [hidentifies.low_le.1, crowded.value_lt_high]

/-- Below `2 ^ 53` magnitudes are no further apart than whole numbers, so of these just one
identifies it. -/
theorem Normal.numerator_shortest_eq (hm : m.Normal) (hk : m.value = k) (h : m.mantissa ≠ 0)
    (hsmall : k < 2 ^ 53) : m.shortest.numerator = k := by
  have hvalue := Scaled.value_of_exponent_nonneg (hm.exponent_shortest_nonneg hk h)
  have hidentifies := identifies_shortest h
  have hunit : (2 : Rat) ^ m.exponent ≤ 1 :=
    zpow_le_one_of_nonpos₀ (by norm_num) ((hm.exponent_nonpos_iff hk).mpr hsmall)
  have hhigh : (m.high : Rat) * 2 ^ m.exponent = 4 * k + 2 * 2 ^ m.exponent := by
    rw [← hk, value_eq, high]
    push_cast
    ring
  have hlow : 4 * (k : Rat) ≤ m.low * 2 ^ m.exponent + 2 * 2 ^ m.exponent := by
    have hle : 4 * m.mantissa ≤ m.low + 2 := by
      unfold low
      split <;> omega
    have hle : 4 * (m.mantissa : Rat) ≤ m.low + 2 := by exact_mod_cast hle
    rw [← hk, value_eq, ← mul_assoc, ← add_mul]
    gcongr
  have hupper : (4 * m.shortest.numerator : Rat) ≤ 4 * k + 2 := by linarith [hidentifies.le_high.1]
  have hlower : (4 * k : Rat) ≤ 4 * m.shortest.numerator + 2 := by linarith [hidentifies.low_le.1]
  norm_cast at hupper hlower
  omega

/-! ## Texts -/

/-- The digits of the decimal that is written, with the zeros behind them. -/
theorem Normal.text_eq_layout (hm : m.Normal) (hk : m.value = k) (h : m.mantissa ≠ 0) :
    ∃ d j : Nat, 0 < d ∧ m.shortest.numerator = d * 10 ^ j ∧
      m.text = layout (Nat.toDigits 10 d) ((Nat.toDigits 10 d).length + j) := by
  obtain ⟨j, hj⟩ := Int.eq_ofNat_of_zero_le (hm.exponent_shortest_nonneg hk h)
  refine ⟨m.shortest.digits, j, ?_, ?_, ?_⟩
  · refine Nat.pos_of_ne_zero fun hzero => ?_
    have hpos := (identifies_shortest h).value_pos h
    rw [Scaled.value, hzero, Nat.cast_zero, zero_mul] at hpos
    exact lt_irrefl _ hpos
  · rw [Scaled.numerator, hj]
    rfl
  · rw [text, if_neg h, ← hj]

theorem Normal.text_of_lt (hm : m.Normal) (hk : m.value = k) (h : m.mantissa ≠ 0)
    (hlt : k < 10 ^ 21) :
    m.text = Nat.toDigits 10 m.shortest.numerator := by
  obtain ⟨d, j, hd, hnumerator, htext⟩ := hm.text_eq_layout hk h
  have hbound := (hm.numerator_shortest_lt_iff hk h).mpr hlt
  rw [hnumerator] at hbound ⊢
  rw [htext, layout_of_lt hd hbound]

theorem Normal.e_mem_text (hm : m.Normal) (hk : m.value = k) (h : m.mantissa ≠ 0)
    (hle : 10 ^ 21 ≤ k) :
    'e' ∈ m.text := by
  obtain ⟨d, j, hd, hnumerator, htext⟩ := hm.text_eq_layout hk h
  have hbound := mt (hm.numerator_shortest_lt_iff hk h).mp (not_lt_of_ge hle)
  rw [hnumerator] at hbound
  rw [htext]
  exact e_mem_layout_of_le hd (not_lt.mp hbound)

end Magnitude

/-! ## Numbers that count -/

variable {x : Float} {k : Nat}

/-- A number that counts something is written as its magnitude, since a sign goes with no more than
zero. -/
theorem text_of_value? (hx : value? x = some (k : Rat)) :
    ∃ m : Magnitude, m.Normal ∧ m.value = k ∧ text x = String.ofList m.text := by
  unfold value? at hx
  split at hx
  · next negative m hread =>
    have hm := Reading.normal_ofBits hread
    rw [text, hread]
    cases negative with
    | false =>
      refine ⟨m, hm, by simpa using hx, ?_⟩
      simp [Reading.text]
    | true =>
      have hnegative : -m.value = k := by simpa using hx
      have hzero : m.value = 0 := by linarith [m.value_nonneg, k.cast_nonneg (α := Rat)]
      have hmantissa := Magnitude.value_eq_zero_iff.mp hzero
      refine ⟨m, hm, by rw [← hnegative, hzero, neg_zero], ?_⟩
      simp [Reading.text, hmantissa]
  · cases hx

/-- Below `10 ^ 21` digits are written, and below `2 ^ 53` those of the number itself. -/
theorem exists_text_eq_toString (hx : value? x = some (k : Rat)) (hlt : k < 10 ^ 21) :
    ∃ v : Nat, text x = toString v ∧ (k < 2 ^ 53 → v = k) := by
  obtain ⟨m, hm, hk, htext⟩ := text_of_value? hx
  by_cases hzero : m.mantissa = 0
  · have hk0 : (k : Rat) = 0 := by rw [← hk, Magnitude.value_eq_zero_iff.mpr hzero]
    refine ⟨0, ?_, fun _ => (Nat.cast_eq_zero.mp hk0).symm⟩
    rw [htext, Magnitude.text, if_pos hzero]
    rfl
  · refine ⟨m.shortest.numerator, ?_, hm.numerator_shortest_eq hk hzero⟩
    rw [htext, hm.text_of_lt hk hzero hlt, Nat.toString_eq_ofList_toDigits]

theorem e_mem_text (hx : value? x = some (k : Rat)) (hle : 10 ^ 21 ≤ k) :
    'e' ∈ (text x).toList := by
  obtain ⟨m, hm, hk, htext⟩ := text_of_value? hx
  have hmantissa : m.mantissa ≠ 0 := fun hzero => by
    rw [Magnitude.value_eq_zero_iff.mpr hzero] at hk
    have hk0 : k = 0 := Nat.cast_eq_zero.mp hk.symm
    omega
  rw [htext, String.toList_ofList]
  exact hm.e_mem_text hk hmantissa hle

/-- A number that counts something is written in digits alone just when it is below `10 ^ 21`. -/
theorem isDigits_text_iff (hx : value? x = some (k : Rat)) : IsDigits (text x) ↔ k < 10 ^ 21 := by
  constructor
  · rintro ⟨-, hdigits⟩
    by_contra hge
    exact absurd (hdigits 'e' (e_mem_text hx (not_lt.mp hge))) (by decide)
  · intro hlt
    obtain ⟨v, hv, -⟩ := exists_text_eq_toString hx hlt
    exact hv ▸ isDigits_toString v

end SqlDraft.Decimal
