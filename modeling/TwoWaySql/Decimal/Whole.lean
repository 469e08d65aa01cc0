/-!
# Whole numbers in digits

Whole numbers are written in decimal digits without leading zeros and read from any run of digits.
-/

namespace TwoWaySql.Decimal

/-- The digits of a whole number. -/
def digitsOf (n : Nat) : List Char := Nat.toDigits 10 n

/-- A whole number in digits, with a minus sign if it is negative. -/
def whole (n : Int) : String :=
  String.ofList (if n < 0 then '-' :: digitsOf n.natAbs else digitsOf n.natAbs)

/-- The number that digits stand for. -/
def ofDigits (digits : List Char) : Nat :=
  digits.foldl (fun n c => 10 * n + (c.toNat - '0'.toNat)) 0

end TwoWaySql.Decimal
