import TwoWaySql.Encoding.Record
import TwoWaySql.Lookup

/-!
# Values in JSON

A value is the JSON of its shape, without a word on its kind. So the kinds are tried one after the
other, and the first one that takes the document decides: an integer of 64 bits is an integer and
any other number a float.
-/

namespace TwoWaySql

namespace Value

mutual

def toJson : Value → Json
  | null => .null
  | bool b => .bool b
  | int i => .integer i.toInt
  | float x => .real x
  | string s => .string s
  | list items => .array (itemsToJson items)
  | map entries => .object (entriesToJson entries)

/-- The JSON of items. -/
def itemsToJson : List Value → List Json
  | [] => []
  | v :: rest => toJson v :: itemsToJson rest

/-- The JSON of entries. -/
def entriesToJson : List (String × Value) → List (String × Json)
  | [] => []
  | (k, v) :: rest => (k, toJson v) :: entriesToJson rest

end

mutual

/-- The value that a document is, by the first of the seven kinds that takes it. -/
def ofJson? (j : Json) : Option Value :=
  (j.unit?.map fun _ => null).or <|
  (j.flag?.map bool).or <|
  (j.int64?.map int).or <|
  (j.double?.map float).or <|
  (j.text?.map string).or <|
  (match j with
    | .array items => (itemsOfJson? items).map list
    | _ => none).or <|
  match j with
  | .object members => (entriesOfJson? members).map ofEntries
  | _ => none

/-- The values of items. -/
def itemsOfJson? : List Json → Option (List Value)
  | [] => some []
  | j :: rest => do return (← ofJson? j) :: (← itemsOfJson? rest)

/-- The values of members. -/
def entriesOfJson? : List (String × Json) → Option (List (String × Value))
  | [] => some []
  | (name, j) :: rest => do return (name, ← ofJson? j) :: (← entriesOfJson? rest)

end

end Value

namespace Parameters

def toJson (p : Parameters) : Json :=
  .object [("data", .object (Value.entriesToJson p.table.entries))]

def ofJson? (j : Json) : Option Parameters :=
  match j.fields? ["data"] with
  | some [some (.object members)] => (Value.entriesOfJson? members).map .ofList
  | _ => none

end Parameters

end TwoWaySql
