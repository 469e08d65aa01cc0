import TwoWaySql.Decimal.Shortest
import TwoWaySql.Decimal.Whole

/-!
# Written floats

How a double is written: the decisions of one output format are the fields of a `Layout`, and
`Layout.write` lays out the shortest decimal by them.
-/

namespace TwoWaySql.Decimal

/-- The decisions of an output format for doubles. -/
structure Layout where
  /-- The least and the greatest exponent of the leading digit for which a number is written without
  an exponent; `none` if every number is. -/
  positional : Option (Int × Int)
  /-- Whether a whole number is written with a point and a zero behind it. -/
  pointZero : Bool
  /-- Whether a positive exponent has a sign. -/
  exponentPlus : Bool
  /-- Which of two equally near shortest decimals is written. -/
  tie : Tie

/-- The digits with the point behind the first `whole` of them: zeros fill up a part that has no
digits of its own. -/
def layPoint (pointZero : Bool) (digits : List Char) (whole : Int) : List Char :=
  if whole ≤ 0 then
    '0' :: '.' :: (List.replicate (-whole).toNat '0' ++ digits)
  else
    let n := whole.toNat
    if digits.length ≤ n then
      digits ++ List.replicate (n - digits.length) '0' ++ if pointZero then ['.', '0'] else []
    else digits.take n ++ '.' :: digits.drop n

/-- The digits with the point behind the first one and the exponent behind the letter e. -/
def Layout.layExponent (n : Layout) (digits : List Char) (exponent : Int) : List Char :=
  let mantissa := match digits with
    | first :: second :: rest => first :: '.' :: second :: rest
    | _ => digits
  let sign := if exponent < 0 then ['-'] else if n.exponentPlus then ['+'] else []
  mantissa ++ 'e' :: (sign ++ digitsOf exponent.natAbs)

/-- A positive decimal in the given notation. -/
def Layout.layOut (n : Layout) (d : Scaled) : List Char :=
  let digits := digitsOf d.digits
  let leading := d.exponent + digits.length - 1
  let plain := match n.positional with
    | none => true
    | some (least, greatest) => least ≤ leading && leading ≤ greatest
  if plain then layPoint n.pointZero digits (leading + 1)
  else n.layExponent digits leading

/-- A double that is no NaN, without its sign. -/
def Layout.writeMagnitude (n : Layout) (x : Float) : List Char :=
  let bits := x.toBits &&& 0x7FFFFFFFFFFFFFFF
  if bits == 0x7FF0000000000000 then ['i', 'n', 'f']
  else if bits == 0 then layPoint n.pointZero ['0'] 1
  else n.layOut ((Binary.ofBits bits).shortest n.tie)

def Layout.write (n : Layout) (x : Float) : String :=
  if x.isNaN then "NaN"
  else if x.toBits >>> 63 == 1 then String.ofList ('-' :: n.writeMagnitude x)
  else String.ofList (n.writeMagnitude x)

end TwoWaySql.Decimal
