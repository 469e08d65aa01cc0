import TwoWaySql.Json.Number
import TwoWaySql.Json.Text

/-!
# Reading JSON

A document is read from its text, with blanks between any two parts. Arrays and objects nest only so
deep; each level of nesting is read by the reader of the level below it.
-/

namespace TwoWaySql.Json

/-- How deep arrays and objects may be nested. -/
def maxNesting : Nat := 127

/-- A reader takes a part of a document off a text and leaves the rest. -/
abbrev Reader (α : Type) := List Char → Option (α × List Char)

/-- The text without its leading blanks. -/
def skipBlanks (s : List Char) : List Char :=
  s.dropWhile fun c => c == ' ' || c == '\n' || c == '\t' || c == '\r'

/-- A document that is no array and no object. -/
def scalar : Reader Json := fun s =>
  match s with
  | 'n' :: 'u' :: 'l' :: 'l' :: rest => some (null, rest)
  | 't' :: 'r' :: 'u' :: 'e' :: rest => some (bool true, rest)
  | 'f' :: 'a' :: 'l' :: 's' :: 'e' :: rest => some (bool false, rest)
  | '"' :: rest => do
    let (content, rest) ← unquote? rest.length rest
    return (string (String.ofList content), rest)
  | _ => do
    let (numeral, rest) ← Numeral.read? s
    return (← numeral.json?, rest)

section Readers

variable (value : Reader Json)

/-- The items of an array, one at least, up to and with the closing bracket. -/
def someItems : (steps : Nat) → List Char → Option (List Json × List Char)
  | 0, _ => none
  | steps + 1, s => do
    let (item, rest) ← value s
    match skipBlanks rest with
    | ',' :: rest => do
      let (items, rest) ← someItems steps rest
      return (item :: items, rest)
    | ']' :: rest => return ([item], rest)
    | _ => none

/-- An array from behind its opening bracket. -/
def arrayBody (s : List Char) : Option (Json × List Char) :=
  match skipBlanks s with
  | ']' :: rest => some (array [], rest)
  | s => (someItems value s.length s).map fun (items, rest) => (array items, rest)

/-- The members of an object, one at least, up to and with the closing brace. -/
def someMembers : (steps : Nat) → List Char → Option (List (String × Json) × List Char)
  | 0, _ => none
  | steps + 1, s =>
    match skipBlanks s with
    | '"' :: rest => do
      let (name, rest) ← unquote? rest.length rest
      match skipBlanks rest with
      | ':' :: rest => do
        let (v, rest) ← value rest
        match skipBlanks rest with
        | ',' :: rest => do
          let (members, rest) ← someMembers steps rest
          return ((String.ofList name, v) :: members, rest)
        | '}' :: rest => return ([(String.ofList name, v)], rest)
        | _ => none
      | _ => none
    | _ => none

/-- An object from behind its opening brace. -/
def objectBody (s : List Char) : Option (Json × List Char) :=
  match skipBlanks s with
  | '}' :: rest => some (object [], rest)
  | s => (someMembers value s.length s).map fun (members, rest) => (object members, rest)

end Readers

/-- A document in which arrays and objects are nested no deeper than `depth`. -/
def valueAt : (depth : Nat) → Reader Json
  | 0, s => scalar (skipBlanks s)
  | depth + 1, s =>
    match skipBlanks s with
    | '[' :: rest => arrayBody (valueAt depth) rest
    | '{' :: rest => objectBody (valueAt depth) rest
    | s => scalar s

/-- The document that a text is. -/
def parse? (s : String) : Option Json := do
  let (j, rest) ← valueAt maxNesting s.toList
  if (skipBlanks rest).isEmpty then return j else none

end TwoWaySql.Json
