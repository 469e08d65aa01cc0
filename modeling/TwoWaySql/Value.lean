import TwoWaySql.Table
import TwoWaySql.Text.Split
import TwoWaySql.Decimal.Layout

/-!
# Values

The values that parameters have: what callers supply, what conditions compute with and what the bind
list carries. A value has two texts: the plain one (`Value.text`) and the one that stands for it in
a statement (`Value.literal`), where texts are quoted.
-/

namespace TwoWaySql

/-- A parameter value. -/
inductive Value where
  | null
  | bool (b : Bool)
  | int (i : Int64)
  | float (x : Float)
  | string (s : String)
  | list (items : List Value)
  /-- The entries are in ascending order of their keys. -/
  | map (entries : List (String × Value))
  deriving Inhabited

namespace Value

def typeName : Value → String
  | null => "null"
  | bool _ => "boolean"
  | int _ => "integer"
  | float _ => "float"
  | string _ => "string"
  | list _ => "list"
  | map _ => "map"

def isNull : Value → Bool
  | null => true
  | _ => false

def asBool? : Value → Option Bool
  | bool b => some b
  | _ => none

/-- The map with the given entries: of several with one key the last one stays. -/
def ofEntries (entries : List (String × Value)) : Value := map (Entries.sort entries)

/-! ## Equality

Two values are equal if they have the same shape and equal parts. Floats are equal as numbers: zero
equals negative zero, and nothing equals a NaN. An integer never equals a float. -/

mutual

/-- Whether two values are equal. -/
def equal : Value → Value → Bool
  | null, null => true
  | bool a, bool b => a == b
  | int a, int b => a == b
  | float a, float b => a == b
  | string a, string b => a == b
  | list as, list bs => equalItems as bs
  | map as, map bs => equalEntries as bs
  | _, _ => false

def equalItems : List Value → List Value → Bool
  | [], [] => true
  | a :: as, b :: bs => equal a b && equalItems as bs
  | _, _ => false

def equalEntries : List (String × Value) → List (String × Value) → Bool
  | [], [] => true
  | (k, a) :: as, (l, b) :: bs => k == l && equal a b && equalEntries as bs
  | _, _ => false

end

instance : BEq Value := ⟨equal⟩

/-! ## Texts -/

/-- Floats in a statement have no exponent and no more digits than they need. -/
def floatLayout : Decimal.Layout where
  positional := none
  pointZero := false
  exponentPlus := false
  tie := .up

/-- A text as a literal: in single quotes, with each quote in it written twice. -/
def quoteLiteral (s : List Char) : List Char :=
  '\'' :: (s.flatMap fun c => if c = '\'' then ['\'', '\''] else [c]) ++ ['\'']

mutual

/-- The plain text of a value. -/
def text : Value → String
  | null => "NULL"
  | bool b => if b then "true" else "false"
  | int i => Decimal.whole i.toInt
  | float x => floatLayout.write x
  | string s => s
  | list items => Text.listed (itemTexts items)
  | map entries => "\x7b" ++ Text.listed (entryTexts entries) ++ "\x7d"

def itemTexts : List Value → List String
  | [] => []
  | v :: rest => text v :: itemTexts rest

def entryTexts : List (String × Value) → List String
  | [] => []
  | (k, v) :: rest => (k ++ ": " ++ text v) :: entryTexts rest

end

mutual

/-- The value as a literal of a statement: texts are quoted, lists become their items' literals with
commas between them, all else is its plain text. -/
def literal : Value → String
  | string s => String.ofList (quoteLiteral s.toList)
  | list items => Text.listed (itemLiterals items)
  | v => text v

def itemLiterals : List Value → List String
  | [] => []
  | v :: rest => literal v :: itemLiterals rest

end

end Value

end TwoWaySql
