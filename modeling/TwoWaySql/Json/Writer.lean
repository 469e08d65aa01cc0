import TwoWaySql.Decimal.Layout
import TwoWaySql.Json
import TwoWaySql.Json.Text

/-!
# Writing JSON

The text of a document, without blanks.
-/

namespace TwoWaySql.Json

/-- Doubles in JSON keep a point or an exponent: numbers below 0.00001 and from 10 ^ 16 up have an
exponent with a sign. -/
def realLayout : Decimal.Layout where
  positional := some (-5, 15)
  pointZero := true
  exponentPlus := true
  tie := .toEven

/-- A double. JSON has no NaN and no infinity, so they are written as null. -/
def writeReal (x : Float) : String := if x.isFinite then realLayout.write x else "null"

/-- A text as a string. -/
def writeString (s : String) : String := String.ofList (quote s.toList)

mutual

def write : Json → String
  | null => "null"
  | bool b => if b then "true" else "false"
  | integer i => Decimal.whole i
  | real x => writeReal x
  | string s => writeString s
  | array items => "[" ++ ",".intercalate (writeItems items) ++ "]"
  | object members => "\x7b" ++ ",".intercalate (writeMembers members) ++ "\x7d"

/-- The texts of items. -/
def writeItems : List Json → List String
  | [] => []
  | j :: rest => write j :: writeItems rest

/-- The texts of members. -/
def writeMembers : List (String × Json) → List String
  | [] => []
  | (name, j) :: rest => (writeString name ++ ":" ++ write j) :: writeMembers rest

end

end TwoWaySql.Json
