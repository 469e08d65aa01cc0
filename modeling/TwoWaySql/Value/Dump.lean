import TwoWaySql.Value
import TwoWaySql.Text.Visible

/-!
# Dumped values

The text by which events show a value: its kind in front, texts quoted so that every character can
be seen, and floats told apart from integers.
-/

namespace TwoWaySql.Value

/-- Floats in a dump keep a point or an exponent: numbers below 0.0001 and from 10 ^ 16 up have an
exponent. -/
def dumpLayout : Decimal.Layout where
  positional := some (-4, 15)
  pointZero := true
  exponentPlus := false
  tie := .up

mutual

/-- The value with its kind in front. -/
def dump : Value → String
  | null => "Null"
  | bool b => "Bool(" ++ (if b then "true" else "false") ++ ")"
  | int i => "Int(" ++ Decimal.whole i.toInt ++ ")"
  | float x => "Float(" ++ dumpLayout.write x ++ ")"
  | string s => "String(" ++ Text.quoted s ++ ")"
  | list items => "List([" ++ Text.listed (dumpItems items) ++ "])"
  | map entries => "Map(\x7b" ++ Text.listed (dumpEntries entries) ++ "\x7d)"

def dumpItems : List Value → List String
  | [] => []
  | v :: rest => dump v :: dumpItems rest

def dumpEntries : List (String × Value) → List String
  | [] => []
  | (k, v) :: rest => (Text.quoted k ++ ": " ++ dump v) :: dumpEntries rest

end

end TwoWaySql.Value
