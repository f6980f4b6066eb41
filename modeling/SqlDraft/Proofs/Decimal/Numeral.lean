import Mathlib.Algebra.Order.Field.Power
import Mathlib.Data.List.TakeWhile
import Mathlib.Tactic.NormNum
import Mathlib.Tactic.Ring
import SqlDraft.Decimal.Text

/-! What a numeral says: its digits, less those behind the point, times a power of ten. Digits that
are laid out say the number they were laid out for (`value_layout`). -/

namespace SqlDraft.Decimal

/-- The number that digits say. -/
def digitsValue (ds : List Char) : Nat := Nat.ofDigitChars 10 ds 0

/-- The power of ten at the end of a numeral. -/
def exponentValue : List Char → Int
  | 'e' :: '-' :: ds => -(digitsValue ds : Int)
  | 'e' :: _ :: ds => digitsValue ds
  | _ => 0

/-- What stands in front of the exponent. -/
def significand (s : List Char) : List Char := s.takeWhile (· != 'e')

/-- The digits on either side of the point. -/
def wholePart (s : List Char) : List Char := (significand s).takeWhile (· != '.')

def fraction (s : List Char) : List Char := ((significand s).dropWhile (· != '.')).drop 1

def numeralValue (s : List Char) : Rat :=
  digitsValue (wholePart s ++ fraction s) *
    10 ^ (exponentValue (s.dropWhile (· != 'e')) - (fraction s).length)

theorem ne_of_isDigit {c : Char} (h : c.isDigit = true) : c ≠ 'e' ∧ c ≠ '.' := by
  constructor <;> rintro rfl <;> exact absurd h (by decide)

theorem span_all {p : Char → Bool} {s : List Char} (h : ∀ c ∈ s, p c = true) :
    s.takeWhile p = s ∧ s.dropWhile p = [] :=
  ⟨List.takeWhile_eq_self_iff.mpr h, List.dropWhile_eq_nil_iff.mpr h⟩

theorem span_at {p : Char → Bool} {s : List Char} (h : ∀ c ∈ s, p c = true) {c : Char}
    (hc : p c = false) (r : List Char) :
    (s ++ c :: r).takeWhile p = s ∧ (s ++ c :: r).dropWhile p = c :: r := by
  rw [List.takeWhile_append_of_pos h, List.dropWhile_append_of_pos h]
  simp [hc]

/-- In front of its exponent, a numeral is the same as without one. -/
theorem numeralValue_append {s r : List Char} (h : 'e' ∉ s) :
    numeralValue (s ++ 'e' :: r) = numeralValue s * 10 ^ exponentValue ('e' :: r) := by
  have he : ∀ c ∈ s, (c != 'e') = true := fun c hc => by simpa using ne_of_mem_of_not_mem hc h
  obtain ⟨htake, hdrop⟩ := span_at he (c := 'e') (by decide) r
  obtain ⟨hall, hnone⟩ := span_all he
  have hten : (10 : Rat) ≠ 0 := by norm_num
  rw [numeralValue, numeralValue, wholePart, wholePart, fraction, fraction, significand,
    significand, htake, hdrop, hall, hnone, mul_assoc, ← zpow_add₀ hten]
  congr 2
  rw [show exponentValue [] = 0 from rfl]
  ring

section

variable {as bs : List Char} (ha : ∀ c ∈ as, c.isDigit = true) (hb : ∀ c ∈ bs, c.isDigit = true)
include ha

theorem e_notMem_digits : 'e' ∉ as := fun h => (ne_of_isDigit (ha _ h)).1 rfl

/-- Digits without a point are counted as they are. -/
theorem numeralValue_digits : numeralValue as = digitsValue as := by
  have he := span_all (p := (· != 'e')) fun c hc => by simpa using (ne_of_isDigit (ha c hc)).1
  have hp := span_all (p := (· != '.')) fun c hc => by simpa using (ne_of_isDigit (ha c hc)).2
  rw [numeralValue, wholePart, fraction, significand, he.1, he.2, hp.1, hp.2]
  simp [exponentValue]

include hb

theorem e_notMem_point : 'e' ∉ as ++ '.' :: bs := by
  intro h
  rcases List.mem_append.mp h with h | h
  · exact e_notMem_digits ha h
  · rcases List.mem_cons.mp h with h | h
    · exact absurd h (by decide)
    · exact e_notMem_digits hb h

/-- Digits behind the point count less by a power of ten for each. -/
theorem numeralValue_point :
    numeralValue (as ++ '.' :: bs) = digitsValue (as ++ bs) * 10 ^ (-(bs.length : Int)) := by
  have he := span_all (p := (· != 'e')) fun c hc => by
    simpa using ne_of_mem_of_not_mem hc (e_notMem_point ha hb)
  have hp := span_at (p := (· != '.')) (fun c hc => by simpa using (ne_of_isDigit (ha c hc)).2)
    (c := '.') (by decide) bs
  rw [numeralValue, wholePart, fraction, significand, he.1, he.2, hp.1, hp.2]
  simp [exponentValue]

end

/-! ## Layout -/

theorem digitsValue_append_zeros (ds : List Char) (k : Nat) :
    digitsValue (ds ++ zeros k) = 10 ^ k * digitsValue ds := by
  rw [digitsValue, Nat.ofDigitChars_append, zeros, Nat.ofDigitChars_replicate_zero, digitsValue]

theorem digitsValue_zeros_append (ds : List Char) (k : Nat) :
    digitsValue (zeros k ++ ds) = digitsValue ds := by
  rw [digitsValue, Nat.ofDigitChars_append, zeros, Nat.ofDigitChars_replicate_zero, digitsValue,
    Nat.mul_zero]

theorem digitsValue_zero_cons (ds : List Char) : digitsValue ('0' :: ds) = digitsValue ds :=
  digitsValue_zeros_append ds 1

theorem isDigit_zeros (k : Nat) : ∀ c ∈ zeros k, c.isDigit = true := by
  intro c hc
  rw [List.eq_of_mem_replicate hc]
  decide

theorem exponentValue_exponentText (e : Int) : exponentValue (exponentText e) = e := by
  have hvalue : digitsValue (Nat.toDigits 10 e.natAbs) = e.natAbs := Nat.ofDigitChars_ten_toDigits
  unfold exponentText
  split
  · next h =>
    show (digitsValue _ : Int) = e
    rw [hvalue, Int.natAbs_of_nonneg h]
  · next h =>
    show -(digitsValue _ : Int) = e
    rw [hvalue]
    omega

theorem numeralValue_exponentText {s : List Char} (h : 'e' ∉ s) (e : Int) :
    numeralValue (s ++ exponentText e) = numeralValue s * 10 ^ e := by
  have hexp := numeralValue_append h (r := (exponentText e).tail)
  rwa [show 'e' :: (exponentText e).tail = exponentText e from rfl,
    exponentValue_exponentText] at hexp

/-- Digits say the number that they are laid out for. -/
theorem numeralValue_layout {ds : List Char} (hd : ∀ c ∈ ds, c.isDigit = true) (hne : ds ≠ [])
    (place : Int) :
    numeralValue (layout ds place) = digitsValue ds * 10 ^ (place - ds.length) := by
  have hten : (10 : Rat) ≠ 0 := by norm_num
  unfold layout
  dsimp only
  split
  · next h =>
    have hall := List.forall_mem_append.mpr ⟨hd, isDigit_zeros (place - ds.length).toNat⟩
    rw [numeralValue_digits hall, digitsValue_append_zeros]
    push_cast
    rw [mul_comm, ← zpow_natCast, Int.toNat_of_nonneg (by omega)]
  split
  · next h hp =>
    have htake : ∀ c ∈ ds.take place.toNat, c.isDigit = true := fun c hc =>
      hd c (List.mem_of_mem_take hc)
    have hdrop : ∀ c ∈ ds.drop place.toNat, c.isDigit = true := fun c hc =>
      hd c (List.mem_of_mem_drop hc)
    rw [numeralValue_point htake hdrop, List.take_append_drop, List.length_drop]
    congr 2
    omega
  split
  · next h =>
    have hzero : ∀ c ∈ ['0'], c.isDigit = true := List.all_eq_true.mp (by decide)
    have hrest := List.forall_mem_append.mpr ⟨isDigit_zeros (-place).toNat, hd⟩
    have hpoint := numeralValue_point hzero hrest
    rw [List.singleton_append, List.singleton_append, digitsValue_zero_cons,
      digitsValue_zeros_append, List.length_append, zeros, List.length_replicate] at hpoint
    rw [List.cons_append, List.cons_append, zeros, hpoint]
    congr 2
    push_cast
    omega
  · match ds, hne with
    | [d], _ =>
      show numeralValue ([d] ++ exponentText (place - 1)) = _
      rw [numeralValue_exponentText (e_notMem_digits hd), numeralValue_digits hd]
      rfl
    | d :: d' :: ds, _ =>
      obtain ⟨hfirst, hrest⟩ := List.forall_mem_cons.mp hd
      have hone : ∀ c ∈ [d], c.isDigit = true := by simpa using hfirst
      show numeralValue ([d] ++ '.' :: (d' :: ds) ++ exponentText (place - 1)) = _
      rw [numeralValue_exponentText (e_notMem_point hone hrest), numeralValue_point hone hrest,
        mul_assoc, ← zpow_add₀ hten]
      congr 2
      simp only [List.length_cons]
      push_cast
      omega

end SqlDraft.Decimal
