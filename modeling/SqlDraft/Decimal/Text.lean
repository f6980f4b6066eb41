import SqlDraft.Decimal.Shortest

/-! How a number is written: positionally while the point is near its digits, otherwise with an
exponent of ten behind an `e`. A zero carries no sign. -/

namespace SqlDraft.Decimal

/-- Numbers are positional up to this many digits before the point. -/
def wholeDigits : Nat := 21

/-- Numbers are positional up to this many zeros behind the point, less one. -/
def leadingZeros : Nat := 6

def zeros (n : Nat) : List Char := List.replicate n '0'

/-- An exponent of ten, always with its sign. -/
def exponentText (e : Int) : List Char :=
  'e' :: (if 0 ≤ e then '+' else '-') :: Nat.toDigits 10 e.natAbs

/-- The digits of a positive number laid out; `place` counts them up to the point. -/
def layout (digits : List Char) (place : Int) : List Char :=
  let n : Int := digits.length
  if n ≤ place ∧ place ≤ wholeDigits then digits ++ zeros (place - n).toNat
  else if 0 < place ∧ place ≤ wholeDigits then
    digits.take place.toNat ++ '.' :: digits.drop place.toNat
  else if -leadingZeros < place ∧ place ≤ 0 then '0' :: '.' :: zeros (-place).toNat ++ digits
  else
    match digits with
    | [d] => d :: exponentText (place - 1)
    | ds => ds.take 1 ++ '.' :: ds.drop 1 ++ exponentText (place - 1)

def Magnitude.text (m : Magnitude) : List Char :=
  if m.mantissa = 0 then ['0']
  else
    let d := m.shortest
    let digits := Nat.toDigits 10 d.digits
    layout digits (digits.length + d.exponent)

def Reading.text : Reading → List Char
  | .nan => "NaN".toList
  | .infinite negative => (if negative then ['-'] else []) ++ "Infinity".toList
  | .finite negative m => (if negative ∧ m.mantissa ≠ 0 then ['-'] else []) ++ m.text

/-- The written form of a number. -/
def text (x : Float) : String := String.ofList (read x).text

end SqlDraft.Decimal
