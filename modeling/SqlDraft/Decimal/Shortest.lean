import SqlDraft.Decimal.Binary

/-! The fewest decimal digits that still identify a binary magnitude. Decimals are tried on grids of
one digit, two digits, and so on: on each grid only the two neighbours of the magnitude can round
to it, and the first grid on which one does gives the digits. Of two neighbours the nearer is
taken, and of two equally near ones the even. All comparisons are of naturals. -/

namespace SqlDraft.Decimal

/-- The decimal `digits * 10 ^ exponent`. -/
structure Scaled where
  digits : Nat
  exponent : Int
deriving DecidableEq, Repr

namespace Scaled

/-- Numerator and denominator of the decimal. -/
def numerator (d : Scaled) : Nat := d.digits * Nat.pow 10 d.exponent.toNat

def denominator (d : Scaled) : Nat := Nat.pow 10 (-d.exponent).toNat

/-- The same decimal without zeros at the end of its digits; `fuel` bounds their number. -/
def strip : (fuel : Nat) → Scaled → Scaled
  | 0, d => d
  | fuel + 1, d =>
    if d.digits ≠ 0 ∧ d.digits % 10 = 0 then strip fuel ⟨d.digits / 10, d.exponent + 1⟩ else d

end Scaled

namespace Magnitude

/-- Whether a decimal lies among the reals that round to the magnitude: from halfway to the number
below to halfway to the number above, with the ends when the mantissa is even. -/
def Identifies (m : Magnitude) (d : Scaled) : Prop :=
  let scale := 4 * d.numerator * m.denominator
  let unit := Nat.pow 2 m.exponent.toNat * d.denominator
  let low := (4 * m.mantissa - if m.narrowBelow then 1 else 2) * unit
  let high := (4 * m.mantissa + 2) * unit
  (low < scale ∧ scale < high) ∨ (m.mantissa % 2 = 0 ∧ (low = scale ∨ scale = high))

instance (m : Magnitude) (d : Scaled) : Decidable (m.Identifies d) :=
  inferInstanceAs (Decidable (_ ∨ _))

/-- How many digits stand before the point; for a magnitude below one, how many zeros follow it,
counted down from zero. -/
def pointPlace (m : Magnitude) : Int :=
  if m.denominator ≤ m.numerator then (Nat.toDigits 10 m.floor).length
  else
    -- the least power of ten that lifts the magnitude to one has as many digits as this bound
    let bound := (m.denominator + m.numerator - 1) / m.numerator - 1
    1 - (Nat.toDigits 10 bound).length

/-- The magnitude counted in units of `10 ^ exponent`, rounded down, and twice the remainder
against the unit. -/
def gridFloor (m : Magnitude) (exponent : Int) : Nat :=
  m.numerator * Nat.pow 10 (-exponent).toNat / (m.denominator * Nat.pow 10 exponent.toNat)

def gridHalf (m : Magnitude) (exponent : Int) : Ordering :=
  let unit := m.denominator * Nat.pow 10 exponent.toNat
  compare (2 * (m.numerator * Nat.pow 10 (-exponent).toNat % unit)) unit

/-- The neighbour on the grid of `10 ^ exponent` that identifies the magnitude, if one does. -/
def onGrid? (m : Magnitude) (exponent : Int) : Option Scaled :=
  let below : Scaled := ⟨m.gridFloor exponent, exponent⟩
  let above : Scaled := ⟨m.gridFloor exponent + 1, exponent⟩
  match decide (m.Identifies below), decide (m.Identifies above) with
  | true, false => some below
  | false, true => some above
  | false, false => none
  | true, true =>
    match m.gridHalf exponent with
    | .lt => some below
    | .gt => some above
    | .eq => if below.digits % 2 = 0 then some below else some above

/-- The magnitude itself, as a decimal. -/
def exact (m : Magnitude) : Scaled :=
  if 0 ≤ m.exponent then ⟨m.numerator, 0⟩
  else ⟨m.mantissa * Nat.pow 5 (-m.exponent).toNat, m.exponent⟩

/-- The first hit on grids of one to seventeen digits; the magnitude itself should none hit. -/
def shortest (m : Magnitude) : Scaled :=
  let tries := (List.range 17).findSome? fun n : Nat => m.onGrid? (m.pointPlace - (n + 1))
  (tries.getD m.exact).strip 400

end Magnitude

end SqlDraft.Decimal
