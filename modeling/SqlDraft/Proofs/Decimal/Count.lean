import Mathlib.Algebra.Order.Field.Rat
import Mathlib.Data.Rat.Lemmas
import Mathlib.Tactic.Linarith
import SqlDraft.Decimal.Binary

/-! Numbers that count something are those whose exact value is a natural number
(`Decimal.isCount_iff`). -/

namespace SqlDraft.Decimal

namespace Magnitude

variable {m : Magnitude}

theorem value_nonneg : 0 ≤ m.value :=
  Rat.mkRat_nonneg (Int.natCast_nonneg _) _

theorem value_eq_natCast_iff {k : ℕ} : m.value = k ↔ m.numerator = k * m.denominator := by
  have hdenominator : (m.denominator : Rat) ≠ 0 := by exact_mod_cast m.denominator_pos.ne'
  unfold value
  rw [Rat.mkRat_eq_div, Int.cast_natCast, div_eq_iff hdenominator]
  norm_cast

theorem isWhole_iff : m.isWhole = true ↔ ∃ k : ℕ, m.value = k := by
  simp only [isWhole, decide_eq_true_eq, value_eq_natCast_iff]
  rw [← Nat.dvd_iff_mod_eq_zero, dvd_iff_exists_eq_mul_left]

theorem value_eq_zero_iff : m.value = 0 ↔ m.mantissa = 0 := by
  have h := value_eq_natCast_iff (m := m) (k := 0)
  have hunit : Nat.pow 2 m.exponent.toNat ≠ 0 := (Nat.two_pow_pos _).ne'
  rw [Nat.cast_zero, Nat.zero_mul] at h
  rw [h, numerator, Nat.mul_eq_zero, or_iff_left hunit]

end Magnitude

theorem isCount_iff {x : Float} : isCount x = true ↔ ∃ k : ℕ, value? x = some (k : Rat) := by
  unfold isCount value?
  split
  · next negative m _ =>
    cases negative with
    | false => simpa using m.isWhole_iff
    | true =>
      simp only [Bool.not_true, Bool.false_or, Bool.and_eq_true, beq_iff_eq, if_true,
        Option.some.injEq]
      constructor
      · rintro ⟨-, h⟩
        exact ⟨0, by rw [m.value_eq_zero_iff.mpr h, neg_zero, Nat.cast_zero]⟩
      · rintro ⟨k, hk⟩
        -- a value that is not negative has a negative that is not positive
        have hzero : m.value = 0 := by linarith [m.value_nonneg, k.cast_nonneg (α := Rat)]
        exact ⟨m.isWhole_iff.mpr ⟨0, by rw [hzero, Nat.cast_zero]⟩, m.value_eq_zero_iff.mp hzero⟩
  · simp

end SqlDraft.Decimal
