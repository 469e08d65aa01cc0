import TwoWaySql.Value

/-!
# Paths into values

A path leads from a value to a part of it: a segment names an entry of a map or, in digits, an item
of a list. A part that is not there is absent; looking inside a boolean, a number or a text is a
fault.
-/

namespace TwoWaySql

/-- Why a path cannot be followed. -/
inductive PathFault where
  /-- The segment leads into a list and is no index. -/
  | notAnIndex (segment : String)
  /-- The segment leads into a value that has no parts. -/
  | noParts (segment typeName : String)
  /-- A fault of a lookup that follows paths in a way of its own. -/
  | custom (text : String)
  deriving DecidableEq, Repr

/-- The text of a fault. -/
def PathFault.message : PathFault → String
  | notAnIndex segment => "'" ++ segment ++ "' is not a valid index into a list"
  | noParts segment typeName => "cannot read property '" ++ segment ++ "' of a " ++ typeName
  | custom text => text

namespace Value

/-- The greatest index that a segment can name: indices are unsigned 64-bit numbers. -/
def maxIndex : Nat := 0xFFFFFFFFFFFFFFFF

/-- The index that a segment names: digits, with or without a plus sign in front. -/
def index? (segment : List Char) : Option Nat :=
  let digits := match segment with
    | '+' :: rest => rest
    | _ => segment
  if !digits.isEmpty && digits.all Char.isDigit && Decimal.ofDigits digits ≤ maxIndex then
    some (Decimal.ofDigits digits)
  else none

/-- The part of a value that a segment names. -/
def part? (v : Value) (segment : List Char) : Except PathFault (Option Value) :=
  match v with
  | null => .ok none
  | map entries => .ok (Entries.find? (String.ofList segment) entries)
  | list items =>
    match index? segment with
    | some i => .ok items[i]?
    | none => .error (.notAnIndex (String.ofList segment))
  | _ => .error (.noParts (String.ofList segment) v.typeName)

/-- The value at the end of a path. -/
def descend (v : Value) : List (List Char) → Except PathFault (Option Value)
  | [] => .ok (some v)
  | segment :: segments =>
    match v.part? segment with
    | .error fault => .error fault
    | .ok none => .ok none
    | .ok (some w) => w.descend segments

end Value

end TwoWaySql
