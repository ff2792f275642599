/-!
# Binary numbers of 64 bits

The floating-point numbers of a document, and the one that is nearest to a decimal.  A finite number is
kept as `mantissa * 2 ^ exponent`, with the exponent of its unit in the last place.
-/

namespace TapeMachine.Number

inductive Binary64 where
  | nan
  | infinite (negative : Bool)
  | finite (negative : Bool) (mantissa : Nat) (exponent : Int)
deriving DecidableEq

/-- A quotient to the nearest natural number, half a unit to the even one. -/
def roundDiv (n d : Nat) : Nat :=
  let q := n / d
  let r := n % d
  if 2 * r < d then q else if d < 2 * r then q + 1 else q + q % 2

/-- `n / d * 2 ^ (-e)`, rounded. -/
def roundScaled (n d : Nat) (e : Int) : Nat :=
  roundDiv (n * Nat.pow 2 (-e).toNat) (d * Nat.pow 2 e.toNat)

namespace Binary64

def zero (negative : Bool) : Binary64 := .finite negative 0 (-1074)

/-- The largest `k` with `2 ^ k ≤ n / d`. -/
def floorLog2 (n d : Nat) : Int :=
  let k := (n.log2 : Int) - d.log2
  if d * Nat.pow 2 k.toNat ≤ n * Nat.pow 2 (-k).toNat then k else k - 1

/-- The number nearest to `n / d`, for a positive `d`: 53 binary digits, fewer below `2 ^ -1022`, and
infinity where the exponent would be too large. -/
def ofRatio (negative : Bool) (n d : Nat) : Binary64 :=
  if n == 0 then zero negative
  else
    let e := max (floorLog2 n d - 52) (-1074)
    let m := roundScaled n d e
    let (m, e) := if m == Nat.pow 2 53 then (Nat.pow 2 52, e + 1) else (m, e)
    if e > 971 then .infinite negative else .finite negative m e

/-- The number nearest to `digits * 10 ^ scale`.  No power of ten is formed where the number of digits
alone tells that the result is infinite or zero. -/
def ofDecimal (negative : Bool) (digits : Nat) (scale : Int) : Binary64 :=
  let top := (Nat.toDigits 10 digits).length + scale
  if digits == 0 || top < -330 then zero negative
  else if top > 310 then .infinite negative
  else ofRatio negative (digits * Nat.pow 10 scale.toNat) (Nat.pow 10 (-scale).toNat)

def isFinite : Binary64 → Bool
  | .finite _ _ _ => true
  | _ => false

/-- Equality of numbers, where zero has one value and a number that is none equals itself. -/
def sameNumber : Binary64 → Binary64 → Bool
  | .finite _ 0 _, .finite _ 0 _ => true
  | x, y => x == y

end Binary64

end TapeMachine.Number
