import TwoWaySql.Name
import TwoWaySql.Value.Path

/-!
# Lookups

What a transformation reads its parameters from. A name can be present without a value of its own:
it then stands for null. A lookup may follow dotted paths in a way of its own; the provided way,
which most lookups share, is `Lookup.follow?`. `Parameters` is the stock of parameters that callers
fill.
-/

namespace TwoWaySql

/-- Read access to parameters. -/
structure Lookup where
  /-- Whether a name is present. -/
  has : String → Bool
  /-- The value of a name. -/
  get? : String → Option Value
  /-- The value at the end of a dotted path. -/
  path? : String → Except PathFault (Option Value)

/-- The provided way to follow a path: the first segment names a parameter, the others lead into
its value. -/
def Lookup.follow? (get? : String → Option Value) (path : String) :
    Except PathFault (Option Value) :=
  match Text.segments '.' path.toList with
  | [] => .ok none
  | head :: segments =>
    match get? (String.ofList head) with
    | none => .ok none
    | some v => v.descend segments

/-- The lookup that follows paths in the provided way. -/
def Lookup.ofValues (has : String → Bool) (get? : String → Option Value) : Lookup :=
  ⟨has, get?, follow? get?⟩

/-- What a variable stands for: a dotted name is a path, and any other name is its value, or null if
it is present without one. -/
def Lookup.resolve? (l : Lookup) (name : String) : Except PathFault (Option Value) :=
  if Name.isDotted name then l.path? name
  else if l.has name then .ok (some ((l.get? name).getD .null))
  else .ok none

/-- Whether a variable stands for a value. -/
def Lookup.resolves (l : Lookup) (name : String) : Bool :=
  match l.resolve? name with
  | .ok (some _) => true
  | _ => false

/-- Parameters by name. -/
structure Parameters where
  table : Table String Value
  deriving Inhabited

instance : BEq Parameters := ⟨fun a b => a.table == b.table⟩

namespace Parameters

def empty : Parameters := ⟨.empty⟩

/-- The parameters with the given names and values. -/
def ofList (entries : List (String × Value)) : Parameters := ⟨.ofList entries⟩

def insert (p : Parameters) (name : String) (v : Value) : Parameters := ⟨p.table.insert name v⟩

/-- Takes a name away. -/
def remove (p : Parameters) (name : String) : Parameters := ⟨p.table.erase name⟩

def get? (p : Parameters) (name : String) : Option Value := p.table.get? name

def contains (p : Parameters) (name : String) : Bool := p.table.contains name

def size (p : Parameters) : Nat := p.table.size

def isEmpty (p : Parameters) : Bool := p.table.isEmpty

/-- The parameters as a lookup: exactly the names with a value are present. -/
def lookup (p : Parameters) : Lookup := .ofValues p.contains p.get?

end Parameters

end TwoWaySql
