import TapeMachine.Yaml.Value
import TapeMachine.Yaml.Token.Quoted

/-!
# Plain scalars as values

A scalar without quotes stands for null, a truth value, a number or itself.  Integers may have a sign
and, after `0x`, `0o` or `0b`, another base.  Digits after a leading zero make no number.
-/

namespace TapeMachine.Yaml

open TapeMachine.Number (Binary64)

/-! ## Null and truth values -/

def isNullText (s : String) : Bool := s == "~" || s == "null" || s == "Null" || s == "NULL"

def boolOfText? (s : String) : Option Bool :=
  if s == "true" || s == "True" || s == "TRUE" then some true
  else if s == "false" || s == "False" || s == "FALSE" then some false
  else none

/-! ## Integers -/

/-- The value of a nonempty list of digits in a base. -/
def natOfDigits? (base : Nat) (cs : List Char) : Option Nat :=
  if cs.isEmpty then none
  else cs.foldlM (fun n c => (hexDigit? c).bind fun d => if d < base then some (base * n + d) else none) 0

/-- A zero before other digits, perhaps after a sign. -/
def isPadded (cs : List Char) : Bool :=
  let cs := match cs with
    | '-' :: cs | '+' :: cs => cs
    | cs => cs
  match cs with
  | '0' :: d :: ds => (d :: ds).all Char.isDigit
  | _ => false

/-- The digits after the mark of a base. -/
def basedNat? : List Char → Option Nat
  | '0' :: 'x' :: cs => natOfDigits? 16 cs
  | '0' :: 'o' :: cs => natOfDigits? 8 cs
  | '0' :: 'b' :: cs => natOfDigits? 2 cs
  | _ => none

/-- The magnitude of an integer without its sign; `padded` tells whether the whole is padded. -/
def magnitude? (padded : Bool) (cs : List Char) : Option Nat :=
  (basedNat? cs).or (if padded then none else natOfDigits? 10 cs)

/-- The integer that a scalar writes down, however large. -/
def intOfText? (cs : List Char) : Option Int :=
  match cs with
  | '+' :: ds => (magnitude? (isPadded cs) ds).map Int.ofNat
  | '-' :: ds => (magnitude? (isPadded cs) ds).map fun n => -(n : Int)
  | ds => (magnitude? (isPadded cs) ds).map Int.ofNat

/-- The integers that a value can hold. -/
def isNarrow (i : Int) : Bool := -(Nat.pow 2 63) ≤ i && i < Nat.pow 2 64

/-- The integers beyond those that are still told from other numbers. -/
def isWide (i : Int) : Bool := !isNarrow i && -(Nat.pow 2 127) ≤ i && i < Nat.pow 2 128

/-! ## Floating-point numbers -/

/-- Digits with at most one point among them, then perhaps an exponent. -/
structure DecimalText where
  whole : List Char
  fraction : List Char
  exponent : Option (Bool × List Char)

/-- The exponent after the letter: its sign and its digits. -/
def exponentOfText? (cs : List Char) : Option (Option (Bool × List Char)) :=
  match cs with
  | [] => some none
  | c :: cs =>
    if c != 'e' && c != 'E' then none
    else
      let (negative, digits) := match cs with
        | '-' :: ds => (true, ds)
        | '+' :: ds => (false, ds)
        | ds => (false, ds)
      if digits.isEmpty || !digits.all Char.isDigit then none else some (some (negative, digits))

def decimalText? (cs : List Char) : Option DecimalText :=
  let whole := cs.takeWhile Char.isDigit
  let rest := cs.dropWhile Char.isDigit
  let (fraction, rest) := match rest with
    | '.' :: rest => (rest.takeWhile Char.isDigit, rest.dropWhile Char.isDigit)
    | rest => ([], rest)
  if whole.isEmpty && fraction.isEmpty then none
  else (exponentOfText? rest).map fun exponent => ⟨whole, fraction, exponent⟩

namespace DecimalText

def digits (t : DecimalText) : Nat := (natOfDigits? 10 (t.whole ++ t.fraction)).getD 0

def scale (t : DecimalText) : Int :=
  let e : Int := match t.exponent with
    | none => 0
    | some (negative, ds) =>
      let n : Int := (natOfDigits? 10 ds).getD 0
      if negative then -n else n
  e - t.fraction.length

end DecimalText

/-- The finite number that a decimal with an optional minus sign is read as. -/
def finiteOfText? (cs : List Char) : Option Binary64 :=
  let (negative, ds) := match cs with
    | '-' :: ds => (true, ds)
    | ds => (false, ds)
  match decimalText? ds with
  | none => none
  | some t =>
    let x := Binary64.ofDecimal negative t.digits t.scale
    if x.isFinite then some x else none

def isInfinityText (cs : List Char) : Bool :=
  cs == ".inf".toList || cs == ".Inf".toList || cs == ".INF".toList

def isNanText (cs : List Char) : Bool :=
  cs == ".nan".toList || cs == ".NaN".toList || cs == ".NAN".toList

/-- The floating-point number that a scalar writes down. -/
def floatOfText? (cs : List Char) : Option Binary64 :=
  match cs with
  | '+' :: ds =>
    if ds.head? == some '+' || ds.head? == some '-' then none
    else if isInfinityText ds then some (.infinite false)
    else finiteOfText? ds
  | '-' :: ds => if isInfinityText ds then some (.infinite true) else finiteOfText? cs
  | _ =>
    if isInfinityText cs then some (.infinite false)
    else if isNanText cs then some .nan
    else finiteOfText? cs

/-! ## Values -/

/-- What a plain scalar stands for. -/
inductive Resolved where
  | value (v : Value)
  /-- An integer that no value can hold. -/
  | tooWide (i : Int)

/-- The integer of a scalar, if it is told from other numbers. -/
def resolveInteger? (s : String) : Option Resolved :=
  (intOfText? s.toList).bind fun i =>
    if isNarrow i then some (.value (.number (.integer i)))
    else if isWide i then some (.tooWide i)
    else none

/-- What a plain scalar stands for: the first of null, a truth value, an integer and a number that it
writes down, else its text. -/
def resolvePlain (s : String) : Resolved :=
  if s.isEmpty || isNullText s then .value .null
  else match boolOfText? s with
  | some b => .value (.bool b)
  | none => match resolveInteger? s with
    | some r => r
    | none =>
      match if isPadded s.toList then none else floatOfText? s.toList with
      | some x => .value (.number (.float x))
      | none => .value (.string s)

end TapeMachine.Yaml
