import TwoWaySql.Json

/-!
# Records and cases in JSON

A record is an object with a member for each field, or an array with the fields in order; an object
with two members for one field is none. A case of several is its name, or an object with its name as
the only member and what it carries as the value.
-/

namespace TwoWaySql.Json

/-- Where a document comes from. The record that a case carries may be an array while a text is
read, but not in a document that is held as a whole. -/
inductive Origin where
  | text
  | held

/-- The member of an object with the given name, if it has one. With two of them there is no
answer. -/
def member? (name : String) (members : List (String × Json)) : Option (Option Json) :=
  match members.filter (·.1 == name) with
  | [] => some none
  | [(_, j)] => some (some j)
  | _ => none

/-- The fields of a record by their names. A field that an object does not have is absent; an array
has to hold them all. -/
def fields? (names : List String) : Json → Option (List (Option Json))
  | object members => names.mapM (member? · members)
  | array items => if items.length = names.length then some (items.map some) else none
  | _ => none

/-- The fields of a record of which an array may leave out the last ones. -/
def fieldsOrFewer? (names : List String) : Json → Option (List (Option Json))
  | object members => names.mapM (member? · members)
  | array items =>
    if items.length ≤ names.length then
      some (items.map some ++ List.replicate (names.length - items.length) none)
    else none
  | _ => none

/-- The name of a case, and what it carries. -/
def case? : Json → Option (String × Option Json)
  | string name => some (name, none)
  | object [(name, payload)] => some (name, some payload)
  | _ => none

/-- A case that carries something. -/
def ofCase (name : String) (payload : Json) : Json := object [(name, payload)]

/-- Whether a case carries nothing. -/
def carriesNothing : Option Json → Bool
  | none => true
  | some null => true
  | _ => false

/-- The name of a case that carries nothing. -/
def name? (j : Json) : Option String :=
  match j.case? with
  | some (name, payload) => if carriesNothing payload then some name else none
  | none => none

/-- The fields of a case that carries a record. -/
def payloadFields? (origin : Origin) (names : List String) :
    Option Json → Option (List (Option Json))
  | some (object members) => (object members).fields? names
  | some (array items) =>
    match origin with
    | .text => (array items).fields? names
    | .held => none
  | _ => none

/-- Nothing, as null is. -/
def unit? : Json → Option Unit
  | null => some ()
  | _ => none

/-- The text that a string is. -/
def text? : Json → Option String
  | string s => some s
  | _ => none

/-- The truth value that a boolean is. -/
def flag? : Json → Option Bool
  | bool b => some b
  | _ => none

/-- The natural number that an integer is. -/
def natural? : Json → Option Nat
  | integer i => if 0 ≤ i && i ≤ maxInteger then some i.toNat else none
  | _ => none

/-- The integer of 64 bits with a sign that an integer is. -/
def int64? : Json → Option Int64
  | integer i =>
    if Int64.minValue.toInt ≤ i && i ≤ Int64.maxValue.toInt then some (Int64.ofInt i) else none
  | _ => none

/-- The double that a number is, for an integer the nearest one. -/
def double? : Json → Option Float
  | integer i => some (Float.ofInt i)
  | real x => some x
  | _ => none

/-- A field that may be absent or null. -/
def optional? {α : Type} (read : Json → Option α) : Option Json → Option (Option α)
  | none => some none
  | some null => some none
  | some j => (read j).map some

/-- A natural number. -/
def ofNatural (n : Nat) : Json := integer n

/-- A value that may be absent. -/
def ofOption {α : Type} (write : α → Json) : Option α → Json
  | none => null
  | some a => write a

end TwoWaySql.Json
