/-!
# JSON

JSON documents. Whole numbers that fit into 64 bits, with or without a sign, are kept apart from all
other numbers, which are doubles. An object keeps all its members in order, also several with one
name.
-/

namespace TwoWaySql

/-- A JSON document. -/
inductive Json where
  | null
  | bool (b : Bool)
  | integer (i : Int)
  | real (x : Float)
  | string (s : String)
  | array (items : List Json)
  | object (members : List (String × Json))
  deriving Inhabited

namespace Json

/-- The least integer that is kept apart from other numbers. -/
def minInteger : Int := -0x8000000000000000

/-- The greatest integer that is kept apart from other numbers. -/
def maxInteger : Int := 0xFFFFFFFFFFFFFFFF

end Json

end TwoWaySql
