import TapeMachine.Number.Binary64

/-!
# The shortest decimal

A number is written with the fewest digits that read back as the number itself, and of those digits
with the nearest.  The decimals that read back lie in an interval around the number, whose ends belong
to it when the mantissa is even; a grid of decimals meets the interval only if it does so next to the
number, so it suffices to try the two neighbours on ever finer grids.
-/

namespace TapeMachine.Number

/-- `digits * 10 ^ exponent`. -/
structure Decimal where
  digits : Nat
  exponent : Int
deriving DecidableEq

/-- The decimals that read back as a number: `low / unit` to `high / unit` around `value / unit`. -/
structure Interval where
  low : Nat
  value : Nat
  high : Nat
  unit : Nat
  closed : Bool

namespace Interval

/-- The interval of `m * 2 ^ e`.  Below a power of two the spacing of the numbers is halved. -/
def of (m : Nat) (e : Int) : Interval :=
  let below := if m == Nat.pow 2 52 && e > -1074 then 1 else 2
  let scale := Nat.pow 2 (e - 2).toNat
  { low := (4 * m - below) * scale
    value := 4 * m * scale
    high := (4 * m + 2) * scale
    unit := Nat.pow 2 (2 - e).toNat
    closed := m % 2 == 0 }

/-- Whether `p / q` lies in the interval. -/
def holds (i : Interval) (p q : Nat) : Bool :=
  if i.closed then i.low * q ≤ p * i.unit && p * i.unit ≤ i.high * q
  else i.low * q < p * i.unit && p * i.unit < i.high * q

/-- The multiple of `10 ^ k` in the interval that is nearest to the value, the even one of two. -/
def onGrid? (i : Interval) (k : Int) : Option Nat :=
  let up := Nat.pow 10 k.toNat
  let down := Nat.pow 10 (-k).toNat
  let d := i.value * down / (i.unit * up)
  let below := i.holds (d * up) down
  let above := i.holds ((d + 1) * up) down
  if below && above then
    let twice := 2 * i.value * down
    let middle := (2 * d + 1) * up * i.unit
    if twice < middle || (twice == middle && d % 2 == 0) then some d else some (d + 1)
  else if below then some d
  else if above then some (d + 1)
  else none

/-- The first grid with a hit, from `10 ^ k` on. -/
def search (i : Interval) : Nat → Int → Decimal
  | 0, k => ⟨0, k⟩
  | fuel + 1, k =>
    match i.onGrid? k with
    | some d => ⟨d, k⟩
    | none => search i fuel (k - 1)

end Interval

/-- An exponent of ten above `m * 2 ^ e`. -/
def decimalCeiling (m : Nat) (e : Int) : Int := ((m.log2 + e + 1) * 30103).fdiv 100000 + 2

/-- The shortest decimal of a positive number. -/
def shortest (m : Nat) (e : Int) : Decimal := (Interval.of m e).search 24 (decimalCeiling m e)

/-! ## Notation -/

def zeros (n : Nat) : List Char := List.replicate n '0'

/-- A decimal between `10 ^ -5` and `10 ^ 16` is written with a point and at least one digit after it,
any other one with an exponent. -/
def Decimal.written (x : Decimal) : List Char :=
  let digits := Nat.toDigits 10 x.digits
  let point := digits.length + x.exponent
  if 0 ≤ x.exponent && point ≤ 16 then digits ++ zeros x.exponent.toNat ++ ['.', '0']
  else if 0 < point && point ≤ 16 then
    digits.take point.toNat ++ '.' :: digits.drop point.toNat
  else if -5 < point && point ≤ 0 then '0' :: '.' :: (zeros (-point).toNat ++ digits)
  else
    let fraction := if digits.length == 1 then [] else '.' :: digits.tail
    digits.take 1 ++ fraction ++ 'e' :: (toString (point - 1)).toList

def sign (negative : Bool) : String := if negative then "-" else ""

def Binary64.text : Binary64 → String
  | .nan => ".nan"
  | .infinite negative => sign negative ++ ".inf"
  | .finite negative 0 _ => sign negative ++ "0.0"
  | .finite negative m e => sign negative ++ String.ofList (shortest m e).written

end TapeMachine.Number
