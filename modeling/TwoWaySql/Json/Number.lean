import TwoWaySql.Decimal.Whole
import TwoWaySql.Json

/-!
# JSON numbers

A number is read as a significand of at most 64 bits and a power of ten. Digits for which the
significand has no room are not looked at: in front of the point they only raise the power. The
double is the significand as a double, multiplied or divided by the power, so it can be off in its
last place. A number that is too large for a double is no number.
-/

namespace TwoWaySql.Json

/-- The greatest significand. -/
def maxSignificand : Nat := 0xFFFFFFFFFFFFFFFF

/-- Whether a significand has room for one more digit. -/
def hasRoom (significand : Nat) (digit : Char) : Bool :=
  10 * significand + (digit.toNat - '0'.toNat) ≤ maxSignificand

/-- Adds digits to a significand as long as there is room, and counts the digits that were added and
those that were left out. -/
def gather (significand : Nat) : List Char → Nat × Nat × Nat
  | [] => (significand, 0, 0)
  | digit :: digits =>
    if hasRoom significand digit then
      let (s, added, left) := gather (10 * significand + (digit.toNat - '0'.toNat)) digits
      (s, added + 1, left)
    else (significand, 0, digits.length + 1)

/-- The greatest power of ten among the doubles. -/
def maxPower : Nat := 308

/-- Ten to a power. -/
def tenTo (power : Nat) : Float := Float.ofScientific 1 false power

/-- A double divided by a power of ten, which may be greater than the greatest power among the
doubles. -/
def divideByPower (x : Float) (power : Nat) : Float :=
  if power ≤ maxPower then x / tenTo power
  else if x == 0 then x
  else divideByPower (x / tenTo maxPower) (power - maxPower)
termination_by power
decreasing_by simp only [maxPower] at *; omega

/-- A significand times a power of ten, if that is not too large. -/
def scale? (significand : Nat) (exponent : Int) : Option Float :=
  let x := Float.ofNat significand
  if exponent < 0 then some (divideByPower x exponent.natAbs)
  else if exponent.natAbs ≤ maxPower then
    let y := x * tenTo exponent.natAbs
    if y.isInf then none else some y
  else if significand = 0 then some x
  else none

/-- The parts of a number as it is written. -/
structure Numeral where
  negative : Bool
  whole : List Char
  /-- The digits behind the point; empty without a point. -/
  fraction : List Char
  /-- The exponent, if there is one. -/
  exponent : Option Int

namespace Numeral

/-- The parts of the number at the start of a text, and what follows it. A number does not start
with a zero that another digit follows, and a point and the letter of an exponent need digits behind
them. -/
def read? (s : List Char) : Option (Numeral × List Char) := do
  let (negative, s) := match s with
    | '-' :: rest => (true, rest)
    | _ => (false, s)
  let whole := s.takeWhile Char.isDigit
  if whole.isEmpty then none
  if whole.head? == some '0' && whole.length != 1 then none
  let (fraction, s) ← fraction? (s.dropWhile Char.isDigit)
  let (exponent, s) ← exponent? s
  return (⟨negative, whole, fraction, exponent⟩, s)
where
  /-- The digits behind a point, if there is one. -/
  fraction? (s : List Char) : Option (List Char × List Char) :=
    match s with
    | '.' :: rest =>
      let digits := rest.takeWhile Char.isDigit
      if digits.isEmpty then none else some (digits, rest.dropWhile Char.isDigit)
    | _ => some ([], s)
  /-- The exponent, if there is one. -/
  exponent? (s : List Char) : Option (Option Int × List Char) :=
    match s with
    | c :: rest =>
      if c = 'e' || c = 'E' then
        let (negative, rest) := match rest with
          | '-' :: rest => (true, rest)
          | '+' :: rest => (false, rest)
          | _ => (false, rest)
        let digits := rest.takeWhile Char.isDigit
        let n : Int := Decimal.ofDigits digits
        if digits.isEmpty then none
        else some (some (if negative then -n else n), rest.dropWhile Char.isDigit)
      else some (none, s)
    | [] => some (none, [])

/-- Whether a number is written without a point and without an exponent. -/
def isWhole (n : Numeral) : Bool := n.fraction.isEmpty && n.exponent.isNone

/-- The double that a number is. -/
def real? (n : Numeral) : Option Float := do
  let (significand, _, left) := gather 0 n.whole
  let (significand, added, _) := gather significand n.fraction
  let x ← scale? significand (left - added + n.exponent.getD 0)
  return if n.negative then -x else x

/-- The integer that a number is, if it is one and fits. Zero with a sign is none. -/
def integer? (n : Numeral) : Option Int :=
  let magnitude : Int := Decimal.ofDigits n.whole
  let i := if n.negative then -magnitude else magnitude
  if n.isWhole && !(n.negative && magnitude == 0) && minInteger ≤ i && i ≤ maxInteger then some i
  else none

/-- The document that a number is. -/
def json? (n : Numeral) : Option Json :=
  match n.integer? with
  | some i => some (.integer i)
  | none => n.real?.map .real

end Numeral

end TwoWaySql.Json
