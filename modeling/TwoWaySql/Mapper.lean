import TwoWaySql.Value

/-!
# Mappers

A mapper changes what is bound or embedded for a value. Mappers are asked in order, and the first
one with an answer decides; without one the value stays as it is.
-/

namespace TwoWaySql

/-- What may stand for a value. -/
structure Mapper where
  /-- The value to bind instead. -/
  toBind : Value → Option Value
  /-- The text to embed instead. -/
  toLiteral : Value → Option String

namespace Mapper

/-- Booleans as the integers one and zero, for databases without a type for them. -/
def booleanAsInteger : Mapper where
  toBind := fun v => v.asBool?.map fun b => .int (if b then 1 else 0)
  toLiteral := fun v => v.asBool?.map fun b => if b then "1" else "0"

/-- The value that is bound for a value. -/
def bindAll (mappers : List Mapper) (v : Value) : Value :=
  (mappers.findSome? (·.toBind v)).getD v

/-- The text that is embedded for a value. -/
def literalAll (mappers : List Mapper) (v : Value) (quoted : Bool) : String :=
  (mappers.findSome? (·.toLiteral v)).getD (if quoted then v.literal else v.text)

end Mapper

end TwoWaySql
