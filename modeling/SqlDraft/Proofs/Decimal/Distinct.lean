import SqlDraft.Proofs.Decimal.Numeral

/-! Different numbers are written differently. The decimal that a magnitude is written as lies among
the reals that round to it, and no real rounds to two magnitudes: where the reals of one end, those
of the next one begin, and of two neighbours only the one with an even mantissa has the end for
itself. -/

namespace SqlDraft.Decimal

namespace Scaled

def value (d : Scaled) : Rat := d.digits * 10 ^ d.exponent

theorem value_strip (fuel : Nat) (d : Scaled) : (strip fuel d).value = d.value := by
  induction fuel generalizing d with
  | zero => rfl
  | succ fuel ih =>
    rw [strip]
    split
    · next h =>
      have hten : (10 : Rat) ≠ 0 := by norm_num
      have hdigits : d.digits = d.digits / 10 * 10 := by omega
      rw [ih, value, value, zpow_add_one₀ hten]
      conv_rhs => rw [hdigits]
      push_cast
      ring
    · rfl

end Scaled

theorem pow_toNat {b : Rat} (hb : b ≠ 0) (e : Int) :
    b ^ e.toNat = b ^ e * b ^ (-e).toNat := by
  rcases le_total 0 e with h | h
  · rw [Int.toNat_of_nonpos (show -e ≤ 0 by omega), pow_zero, mul_one, ← zpow_natCast,
      Int.toNat_of_nonneg h]
  · rw [Int.toNat_of_nonpos h, pow_zero, ← zpow_natCast b, Int.toNat_of_nonneg (by omega),
      ← zpow_add₀ hb, add_neg_cancel, zpow_zero]

namespace Magnitude

/-- Four times the mantissas halfway to the numbers below and above. -/
def low (m : Magnitude) : Nat := 4 * m.mantissa - if m.narrowBelow then 1 else 2

def high (m : Magnitude) : Nat := 4 * m.mantissa + 2

/-- A decimal identifies a magnitude if it lies between the halfway points, or on one of them and
the mantissa is even. -/
theorem identifies_iff {m : Magnitude} {d : Scaled} :
    m.Identifies d ↔
      (m.low * (2 : Rat) ^ m.exponent < 4 * d.value ∧ 4 * d.value < m.high * 2 ^ m.exponent) ∨
      m.mantissa % 2 = 0 ∧
        (m.low * (2 : Rat) ^ m.exponent = 4 * d.value ∨ 4 * d.value = m.high * 2 ^ m.exponent) := by
  have htwo : (2 : Rat) ≠ 0 := by norm_num
  have hten : (10 : Rat) ≠ 0 := by norm_num
  have hpos : (0 : Rat) < 2 ^ (-m.exponent).toNat * 10 ^ (-d.exponent).toNat := by positivity
  have hscale : ((4 * d.numerator * m.denominator : Nat) : Rat) =
      4 * d.value * (2 ^ (-m.exponent).toNat * 10 ^ (-d.exponent).toNat) := by
    simp only [Scaled.numerator, denominator, Scaled.value, Nat.pow_eq]
    push_cast
    rw [pow_toNat hten d.exponent]
    ring
  have hunit (k : Nat) : ((k * (Nat.pow 2 m.exponent.toNat * d.denominator) : Nat) : Rat) =
      k * 2 ^ m.exponent * (2 ^ (-m.exponent).toNat * 10 ^ (-d.exponent).toNat) := by
    simp only [Scaled.denominator, Nat.pow_eq]
    push_cast
    rw [pow_toNat htwo m.exponent]
    ring
  have hlt (k : Nat) : k * (Nat.pow 2 m.exponent.toNat * d.denominator) <
      4 * d.numerator * m.denominator ↔ k * (2 : Rat) ^ m.exponent < 4 * d.value := by
    rw [← Nat.cast_lt (α := Rat), hscale, hunit, mul_lt_mul_iff_left₀ hpos]
  have hgt (k : Nat) : 4 * d.numerator * m.denominator <
      k * (Nat.pow 2 m.exponent.toNat * d.denominator) ↔
        4 * d.value < k * (2 : Rat) ^ m.exponent := by
    rw [← Nat.cast_lt (α := Rat), hscale, hunit, mul_lt_mul_iff_left₀ hpos]
  have heq (k : Nat) : k * (Nat.pow 2 m.exponent.toNat * d.denominator) =
      4 * d.numerator * m.denominator ↔ k * (2 : Rat) ^ m.exponent = 4 * d.value := by
    rw [← Nat.cast_inj (R := Rat), hscale, hunit, mul_left_inj' hpos.ne']
  show (m.low * _ < _ ∧ _ < m.high * _) ∨ (_ ∧ (m.low * _ = _ ∨ _ = m.high * _)) ↔ _
  rw [hlt, hgt, heq, eq_comm (b := m.high * _), heq, eq_comm (b := (m.high : Rat) * _)]

theorem low_le_high (m : Magnitude) : m.low ≤ m.high := by
  unfold low high
  omega

theorem Identifies.le_high {m : Magnitude} {d : Scaled} (h : m.Identifies d) :
    4 * d.value ≤ m.high * 2 ^ m.exponent ∧
      (4 * d.value = m.high * 2 ^ m.exponent → m.mantissa % 2 = 0) := by
  rcases identifies_iff.mp h with ⟨-, h⟩ | ⟨he, h | h⟩
  · exact ⟨h.le, fun hd => absurd hd h.ne⟩
  · refine ⟨?_, fun _ => he⟩
    rw [← h]
    gcongr
    exact m.low_le_high
  · exact ⟨h.le, fun _ => he⟩

theorem Identifies.low_le {m : Magnitude} {d : Scaled} (h : m.Identifies d) :
    m.low * (2 : Rat) ^ m.exponent ≤ 4 * d.value ∧
      (m.low * (2 : Rat) ^ m.exponent = 4 * d.value → m.mantissa % 2 = 0) := by
  rcases identifies_iff.mp h with ⟨h, -⟩ | ⟨he, h | h⟩
  · exact ⟨h.le, fun hd => absurd hd h.ne⟩
  · exact ⟨h.le, fun _ => he⟩
  · refine ⟨?_, fun _ => he⟩
    rw [h]
    gcongr
    exact m.low_le_high

/-! ## No decimal identifies two magnitudes -/

/-- What the bits of a number read as: a mantissa of up to 53 bits, and of no fewer above the lowest
exponent. -/
structure Normal (m : Magnitude) : Prop where
  mantissa_lt : m.mantissa < 2 ^ 53
  le_exponent : -1074 ≤ m.exponent
  le_mantissa : -1074 < m.exponent → 2 ^ 52 ≤ m.mantissa
  narrowBelow_iff : m.narrowBelow = true ↔ m.mantissa = 2 ^ 52 ∧ -1074 < m.exponent

def Before (m n : Magnitude) : Prop :=
  m.exponent < n.exponent ∨ m.exponent = n.exponent ∧ m.mantissa < n.mantissa

variable {m n : Magnitude}

theorem Normal.before_or_eq (hm : m.Normal) (hn : n.Normal) : m.Before n ∨ m = n ∨ n.Before m := by
  rcases lt_trichotomy m.exponent n.exponent with h | he | h
  · exact .inl (.inl h)
  · rcases lt_trichotomy m.mantissa n.mantissa with h | hf | h
    · exact .inl (.inr ⟨he, h⟩)
    · have hb : m.narrowBelow = n.narrowBelow := by
        rw [Bool.eq_iff_iff, hm.narrowBelow_iff, hn.narrowBelow_iff, he, hf]
      obtain ⟨_, _, _⟩ := m
      obtain ⟨_, _, _⟩ := n
      cases he
      cases hf
      cases hb
      exact .inr (.inl rfl)
    · exact .inr (.inr (.inr ⟨he.symm, h⟩))
  · exact .inr (.inr (.inl h))

/-- The reals that round to a magnitude end where those of a later one begin, or before that. -/
theorem Normal.high_le_low (hm : m.Normal) (hn : n.Normal) {k : Nat}
    (hk : n.exponent = m.exponent + k) (hb : m.Before n) :
    m.high < n.low * 2 ^ k ∨
      m.high = n.low * 2 ^ k ∧ ¬ (m.mantissa % 2 = 0 ∧ n.mantissa % 2 = 0) := by
  have hlt := hm.mantissa_lt
  have hexp := hm.le_exponent
  have hfloor := hn.le_mantissa
  have hnarrow := hn.narrowBelow_iff
  unfold high low
  cases k with
  | zero =>
    rw [pow_zero, mul_one]
    have hmant : m.mantissa < n.mantissa := by
      rcases hb with hb | hb <;> omega
    split <;> omega
  | succ k =>
    have hpow : 2 ^ (k + 1) = 2 * 2 ^ k := by rw [pow_succ, mul_comm]
    have hone : 1 ≤ 2 ^ k := Nat.one_le_two_pow
    have hn52 := hfloor (by omega)
    rw [hpow]
    cases hb : n.narrowBelow with
    | true =>
      have h52 := (hnarrow.mp hb).1
      have hmul : (4 * n.mantissa - 1) * (2 * 1) ≤ (4 * n.mantissa - 1) * (2 * 2 ^ k) := by gcongr
      simp only [if_true]
      omega
    | false =>
      have h52 : n.mantissa ≠ 2 ^ 52 := fun h => by
        rw [hnarrow.mpr ⟨h, by omega⟩] at hb
        cases hb
      have hmul : (4 * n.mantissa - 2) * (2 * 1) ≤ (4 * n.mantissa - 2) * (2 * 2 ^ k) := by gcongr
      simp only [Bool.false_eq_true, if_false]
      omega

theorem Before.exists_exponent_eq (h : m.Before n) : ∃ k : Nat, n.exponent = m.exponent + k := by
  refine ⟨(n.exponent - m.exponent).toNat, ?_⟩
  rcases h with h | ⟨h, -⟩ <;> omega

theorem low_mul_eq {k : Nat} (hk : n.exponent = m.exponent + k) :
    (n.low : Rat) * 2 ^ n.exponent = (n.low * 2 ^ k : Nat) * 2 ^ m.exponent := by
  have htwo : (2 : Rat) ≠ 0 := by norm_num
  rw [hk, zpow_add₀ htwo, zpow_natCast]
  push_cast
  ring

theorem not_identifies_both (hm : m.Normal) (hn : n.Normal) (hb : m.Before n) {d e : Scaled}
    (hd : m.Identifies d) (he : n.Identifies e) : d.value ≠ e.value := by
  intro hv
  obtain ⟨k, hk⟩ := hb.exists_exponent_eq
  have hpos : (0 : Rat) < 2 ^ m.exponent := by positivity
  have hlow := low_mul_eq hk
  obtain ⟨hupper, hmeven⟩ := hd.le_high
  obtain ⟨hlower, hneven⟩ := he.low_le
  rw [← hv, hlow] at hlower hneven
  rcases hm.high_le_low hn hk hb with hlt | ⟨heq, hodd⟩
  · have hbelow : (m.high : Rat) * 2 ^ m.exponent < (n.low * 2 ^ k : Nat) * 2 ^ m.exponent := by
      gcongr
    exact absurd (hupper.trans_lt hbelow) (not_lt_of_ge hlower)
  · rw [← heq] at hlower hneven
    have hd := le_antisymm hupper hlower
    exact hodd ⟨hmeven hd, hneven hd.symm⟩

/-! ## What a magnitude is written as -/

theorem identifies_of_onGrid? {e : Int} {d : Scaled} (h : m.onGrid? e = some d) :
    m.Identifies d := by
  unfold onGrid? at h
  dsimp only at h
  split at h
  · next hb _ => cases h; exact of_decide_eq_true hb
  · next ha => cases h; exact of_decide_eq_true ha
  · cases h
  · next hb ha =>
    split at h
    · cases h; exact of_decide_eq_true hb
    · cases h; exact of_decide_eq_true ha
    · split at h
      · cases h; exact of_decide_eq_true hb
      · cases h; exact of_decide_eq_true ha

theorem value_exact (m : Magnitude) : m.exact.value = m.mantissa * 2 ^ m.exponent := by
  unfold exact Scaled.value
  split
  · next h =>
    simp only [numerator, Nat.pow_eq]
    push_cast
    rw [mul_one, ← zpow_natCast, Int.toNat_of_nonneg h]
  · next h =>
    have hten : (10 : Rat) = 5 * 2 := by norm_num
    have hfive : (5 : Rat) ≠ 0 := by norm_num
    simp only [Nat.pow_eq]
    push_cast
    rw [pow_toNat hfive, neg_neg, Int.toNat_of_nonpos (by omega), pow_zero, mul_one, hten, mul_zpow,
      mul_assoc, ← mul_assoc (5 ^ _), zpow_neg_mul_zpow_self _ hfive, one_mul]

theorem identifies_exact (h : m.mantissa ≠ 0) : m.Identifies m.exact := by
  have hpos : (0 : Rat) < 2 ^ m.exponent := by positivity
  have hlow : m.low < 4 * m.mantissa := by
    unfold low
    split <;> omega
  have hhigh : 4 * m.mantissa < m.high := by
    unfold high
    omega
  rw [identifies_iff, value_exact, ← mul_assoc]
  refine .inl ⟨?_, ?_⟩
  · gcongr
    exact_mod_cast hlow
  · gcongr
    exact_mod_cast hhigh

theorem exists_identifies_shortest (h : m.mantissa ≠ 0) :
    ∃ d, m.Identifies d ∧ m.shortest.value = d.value := by
  unfold shortest
  dsimp only
  rw [Scaled.value_strip]
  cases ht : (List.range 17).findSome? fun n : Nat => m.onGrid? (m.pointPlace - (n + 1)) with
  | none => exact ⟨m.exact, identifies_exact h, rfl⟩
  | some d =>
    obtain ⟨n, -, hn⟩ := List.exists_of_findSome?_eq_some ht
    exact ⟨d, identifies_of_onGrid? hn, rfl⟩

theorem isDigit_toDigits (n : Nat) : ∀ c ∈ Nat.toDigits 10 n, c.isDigit = true := fun _ hc =>
  Nat.isDigit_of_mem_toDigits (by decide) (by decide) hc

theorem numeralValue_text (h : m.mantissa ≠ 0) : numeralValue m.text = m.shortest.value := by
  rw [text, if_neg h]
  dsimp only
  rw [numeralValue_layout (isDigit_toDigits _) Nat.toDigits_ne_nil, digitsValue,
    Nat.ofDigitChars_ten_toDigits, add_sub_cancel_left, Scaled.value]

theorem Identifies.value_pos {d : Scaled} (hd : m.Identifies d) (h : m.mantissa ≠ 0) :
    0 < d.value := by
  have hlow : (0 : Rat) < m.low * 2 ^ m.exponent := by
    have hl : 0 < m.low := by
      unfold low
      split <;> omega
    positivity
  exact pos_of_mul_pos_right (hlow.trans_le hd.low_le.1) (by norm_num)

theorem numeralValue_text_eq_zero_iff : numeralValue m.text = 0 ↔ m.mantissa = 0 := by
  constructor
  · intro h
    by_contra hm
    obtain ⟨d, hd, hv⟩ := exists_identifies_shortest hm
    rw [numeralValue_text hm, hv] at h
    exact (hd.value_pos hm).ne' h
  · intro h
    rw [text, if_pos h, numeralValue_digits (List.all_eq_true.mp (by decide))]
    rfl

/-- The text of a magnitude is that of no other. -/
theorem Normal.eq_of_text_eq (hm : m.Normal) (hn : n.Normal) (h : m.text = n.text) : m = n := by
  by_cases hm0 : m.mantissa = 0
  · have hn0 : n.mantissa = 0 :=
      numeralValue_text_eq_zero_iff.mp (h ▸ numeralValue_text_eq_zero_iff.mpr hm0)
    have hme := mt hm.le_mantissa
    have hne := mt hn.le_mantissa
    have hmle := hm.le_exponent
    have hnle := hn.le_exponent
    rcases hm.before_or_eq hn with hb | hb | hb
    · rcases hb with hb | hb <;> omega
    · exact hb
    · rcases hb with hb | hb <;> omega
  · have hn0 : n.mantissa ≠ 0 := fun hn0 => hm0
      (numeralValue_text_eq_zero_iff.mp (h ▸ numeralValue_text_eq_zero_iff.mpr hn0))
    obtain ⟨d, hd, hdv⟩ := exists_identifies_shortest hm0
    obtain ⟨e, he, hev⟩ := exists_identifies_shortest hn0
    have hv : d.value = e.value := by
      rw [← hdv, ← hev, ← numeralValue_text hm0, ← numeralValue_text hn0, h]
    rcases hm.before_or_eq hn with hb | hb | hb
    · exact absurd hv (not_identifies_both hm hn hb hd he)
    · exact hb
    · exact absurd hv.symm (not_identifies_both hn hm hb he hd)

end Magnitude

/-! ## Numbers -/

theorem Reading.normal_ofBits {bits : Nat} {negative : Bool} {m : Magnitude}
    (h : ofBits bits = .finite negative m) : m.Normal := by
  have hbiased : bits >>> 52 % 2048 < 2048 := Nat.mod_lt _ (by decide)
  have hfraction : bits % fractionUnit < 2 ^ 52 := Nat.mod_lt _ (by decide)
  have hunit : fractionUnit = 2 ^ 52 := rfl
  unfold ofBits at h
  dsimp only at h
  split at h
  · split at h <;> cases h
  split at h
  · cases h
    exact ⟨by dsimp only; omega, le_refl _, fun h => absurd h (lt_irrefl _), by simp⟩
  · next hinf hzero =>
    cases h
    refine ⟨by dsimp only; omega, by dsimp only; omega, fun _ => by dsimp only; omega, ?_⟩
    simp only [Bool.and_eq_true, beq_iff_eq, decide_eq_true_eq]
    omega

/-- Two numbers above zero that are written alike are one. -/
theorem read_eq_of_text_eq {x y : Float} {m n : Magnitude} (hx : read x = .finite false m)
    (hy : read y = .finite false n) (h : text x = text y) : read x = read y := by
  have htext : m.text = n.text := by
    have hchars := congrArg String.toList h
    rw [text, text, String.toList_ofList, String.toList_ofList, hx, hy] at hchars
    simpa [Reading.text] using hchars
  rw [hx, hy, (Reading.normal_ofBits hx).eq_of_text_eq (Reading.normal_ofBits hy) htext]

end SqlDraft.Decimal
