/-! What the bits of a binary64 number stand for: nothing, an infinity, or a sign and a magnitude
`mantissa * 2 ^ exponent`. The magnitude is exact, so questions about the number (is it whole, which
decimals round to it) become questions about naturals. -/

namespace SqlDraft.Decimal

/-- A finite magnitude `mantissa * 2 ^ exponent`. -/
structure Magnitude where
  mantissa : Nat
  exponent : Int
  /-- The gap to the number below is half the gap to the number above. -/
  narrowBelow : Bool := false
deriving DecidableEq, Repr

inductive Reading where
  | nan
  | infinite (negative : Bool)
  | finite (negative : Bool) (magnitude : Magnitude)
deriving DecidableEq, Repr

/-- The values that the fraction may have; what stands in front of it is one such unit. -/
def fractionUnit : Nat := Nat.pow 2 52

/-- The reading of 64 bits: a sign, eleven bits of exponent and fifty-two of fraction. -/
def Reading.ofBits (bits : Nat) : Reading :=
  let negative := bits >>> 63 % 2 == 1
  let biased : Nat := bits >>> 52 % 2048
  let fraction : Nat := bits % fractionUnit
  if biased = 2047 then
    if fraction = 0 then .infinite negative else .nan
  else if biased = 0 then
    .finite negative { mantissa := fraction, exponent := -1074 }
  else
    .finite negative
      { mantissa := fractionUnit + fraction
        exponent := (biased : Int) - 1075
        narrowBelow := fraction == 0 && biased > 1 }

def read (x : Float) : Reading := .ofBits x.toBits.toNat

namespace Magnitude

/-- The magnitude is `numerator / denominator`, with a power of two below. -/
def numerator (m : Magnitude) : Nat := m.mantissa * Nat.pow 2 m.exponent.toNat

def denominator (m : Magnitude) : Nat := Nat.pow 2 (-m.exponent).toNat

theorem denominator_pos (m : Magnitude) : 0 < m.denominator := Nat.two_pow_pos _

/-- The whole part. -/
def floor (m : Magnitude) : Nat := m.numerator / m.denominator

def value (m : Magnitude) : Rat := mkRat m.numerator m.denominator

def isWhole (m : Magnitude) : Bool := m.numerator % m.denominator = 0

end Magnitude

/-- The number without its fraction, if it is finite. -/
def truncate? (x : Float) : Option Int :=
  match read x with
  | .finite negative m => some (if negative then -(m.floor : Int) else m.floor)
  | _ => none

/-- The exact value of a number, if it is finite. -/
def value? (x : Float) : Option Rat :=
  match read x with
  | .finite negative m => some (if negative then -m.value else m.value)
  | _ => none

def isFinite (x : Float) : Bool :=
  match read x with
  | .finite _ _ => true
  | _ => false

/-- Whether a number counts something: it is whole, and zero if it carries a minus sign. -/
def isCount (x : Float) : Bool :=
  match read x with
  | .finite negative m => m.isWhole && (!negative || m.mantissa == 0)
  | _ => false

end SqlDraft.Decimal
