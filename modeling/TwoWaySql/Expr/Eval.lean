import TwoWaySql.Expr
import TwoWaySql.Lookup

/-!
# Values of expressions

What an expression means under a lookup and a list of functions. An absent path is null. `and` and
`or` do not look at their second operand when the first one decides. Integers and floats are
compared as doubles, so large integers may be equal to their neighbours.
-/

namespace TwoWaySql

/-- A function that expressions can call. A fault is a text. -/
abbrev Function := List Value → Except String Value

/-- Functions by name: of several with one name the first one is called. -/
abbrev Functions := List (String × Function)

/-- Why an expression has no value. -/
inductive EvalFault where
  | path (fault : PathFault)
  | unknownFunction (name : String)
  | function (name message : String)
  /-- An operand of a logical operator is no boolean. -/
  | notBoolean (operator found : String)
  /-- The integer whose negative is out of range. -/
  | negateInteger (i : Int64)
  | negateType (typeName : String)
  | incomparable (left right : String)
  deriving DecidableEq

/-- A fault in words. -/
def EvalFault.message : EvalFault → String
  | path fault => fault.message
  | unknownFunction name => "unknown function '" ++ name ++ "'"
  | function name message => name ++ ": " ++ message
  | notBoolean operator found =>
    "'" ++ operator ++ "' needs boolean operands, found " ++ found
  | negateInteger i => "cannot negate " ++ Decimal.whole i.toInt
  | negateType typeName => "cannot negate a " ++ typeName
  | incomparable left right => "cannot compare " ++ left ++ " with " ++ right

namespace Value

/-- The number that an integer or a float is, as a double. -/
def asNumber? : Value → Option Float
  | int i => some (Float.ofInt i.toInt)
  | float x => some x
  | _ => none

/-- Whether two values are equal to a condition: numbers by their doubles, all else as values. -/
def same (v w : Value) : Bool :=
  match v.asNumber?, w.asNumber? with
  | some x, some y => x == y
  | _, _ => v == w

/-- How two doubles are ordered. A NaN is not ordered. -/
def numberOrder? (x y : Float) : Option Ordering :=
  if x < y then some .lt else if x == y then some .eq else if y < x then some .gt else none

/-- Whether a comparison holds of two values. Nothing is less or greater than null. -/
def compareBy (op : Comparison) (v w : Value) : Except EvalFault Bool :=
  match op with
  | .eq => .ok (same v w)
  | .ne => .ok (!same v w)
  | op =>
    match v, w with
    | null, _ => .ok false
    | _, null => .ok false
    | string s, string t => .ok (op.admits (compare s t))
    | v, w =>
      match v.asNumber?, w.asNumber? with
      | some x, some y => .ok ((numberOrder? x y).any op.admits)
      | _, _ => .error (.incomparable v.typeName w.typeName)

/-- The truth value of an operand of a logical operator. -/
def operand (operator : String) (v : Value) : Except EvalFault Bool :=
  match v.asBool? with
  | some b => .ok b
  | none => .error (.notBoolean operator v.typeName)

/-- The value with its sign turned. -/
def negate : Value → Except EvalFault Value
  | int i => if i = Int64.minValue then .error (.negateInteger i) else .ok (int (-i))
  | float x => .ok (float (-x))
  | v => .error (.negateType v.typeName)

end Value

namespace Expr

mutual

/-- The value of an expression. -/
def eval (functions : Functions) (l : Lookup) : Expr → Except EvalFault Value
  | literal v => .ok v
  | path p =>
    match l.path? p with
    | .ok v => .ok (v.getD .null)
    | .error fault => .error (.path fault)
  | call name arguments =>
    match functions.lookup name with
    | none => .error (.unknownFunction name)
    | some function => do
      let values ← evalAll functions l arguments
      match function values with
      | .ok v => .ok v
      | .error message => .error (.function name message)
  | not e => do
    let b ← (← eval functions l e).operand "!"
    return .bool !b
  | neg e => do
    let v ← eval functions l e
    v.negate
  | and left right => do
    if ← (← eval functions l left).operand "&&" then
      return .bool (← (← eval functions l right).operand "&&")
    else
      return .bool false
  | or left right => do
    if ← (← eval functions l left).operand "||" then
      return .bool true
    else
      return .bool (← (← eval functions l right).operand "||")
  | compare op left right => do
    let v ← eval functions l left
    let w ← eval functions l right
    return .bool (← v.compareBy op w)

/-- The values of expressions in a row: the first fault ends it. -/
def evalAll (functions : Functions) (l : Lookup) : List Expr → Except EvalFault (List Value)
  | [] => .ok []
  | e :: rest => do
    let v ← eval functions l e
    let vs ← evalAll functions l rest
    return v :: vs

end

end Expr

end TwoWaySql
