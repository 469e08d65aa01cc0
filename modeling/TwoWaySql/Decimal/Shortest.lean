/-!
# Shortest decimals

A finite double stands for all real numbers that round to it. Among the decimals in that interval,
`shortest` takes one with the fewest digits and, of those, the one nearest to the double. All
arithmetic is exact: the interval's ends, the value and the decimals are compared as natural numbers
over a common denominator.
-/

namespace TwoWaySql.Decimal

/-- A positive finite double: its value is `m * 2 ^ q`. -/
structure Binary where
  m : Nat
  q : Int
  /-- Whether the double below is only half as far away as the double above. -/
  narrowBelow : Bool

/-- The value behind the bits of a positive finite double. -/
def Binary.ofBits (bits : UInt64) : Binary :=
  let exponent := ((bits >>> 52) &&& 0x7FF).toNat
  let fraction := (bits &&& 0xFFFFFFFFFFFFF).toNat
  if exponent == 0 then ⟨fraction, -1074, false⟩
  else ⟨0x10000000000000 + fraction, (exponent : Int) - 1075, fraction == 0 && exponent > 1⟩

/-- A decimal: its value is `digits * 10 ^ exponent`. -/
structure Scaled where
  digits : Nat
  exponent : Int
  deriving DecidableEq, Repr

/-- Which of two equally near decimals is taken. -/
inductive Tie where
  /-- The greater one. -/
  | up
  /-- The one whose last digit is even. -/
  | toEven
  deriving DecidableEq, Repr

/-- The value and the ends of its interval in quarters of the last binary place, on the decimal grid
`10 ^ exponent`: all three are numerators over `unit`, which is one step of the grid. -/
structure Grid where
  low : Nat
  value : Nat
  high : Nat
  unit : Nat
  /-- Whether the ends belong to the interval. -/
  closed : Bool

/-- The value and its interval on the grid `10 ^ exponent`. -/
def Binary.grid (x : Binary) (exponent : Int) : Grid :=
  let scale := Nat.pow 2 (x.q - 2).toNat * Nat.pow 10 (-exponent).toNat
  { low := (4 * x.m - if x.narrowBelow then 1 else 2) * scale
    value := 4 * x.m * scale
    high := (4 * x.m + 2) * scale
    unit := Nat.pow 2 (2 - x.q).toNat * Nat.pow 10 exponent.toNat
    closed := x.m % 2 == 0 }

/-- Whether the grid's point `d` lies in the interval. -/
def Grid.holds (g : Grid) (d : Nat) : Bool :=
  if g.closed then decide (g.low ≤ d * g.unit) && decide (d * g.unit ≤ g.high)
  else decide (g.low < d * g.unit) && decide (d * g.unit < g.high)

/-- The point of the grid in the interval that is nearest to the value, if the interval holds one of
the value's two neighbours on the grid. -/
def Grid.nearest? (g : Grid) (tie : Tie) : Option Nat :=
  let below := g.value / g.unit
  match g.holds below, g.holds (below + 1) with
  | false, false => none
  | true, false => some below
  | false, true => some (below + 1)
  | true, true =>
    match compare (2 * g.value) ((2 * below + 1) * g.unit), tie with
    | .lt, _ => some below
    | .gt, _ => some (below + 1)
    | .eq, .up => some (below + 1)
    | .eq, .toEven => some (if below % 2 == 0 then below else below + 1)

/-- An exponent above which no grid has a point in the interval: twice the value is smaller than the
power of ten. -/
def Binary.ceiling (x : Binary) : Int :=
  ((Nat.log2 x.m : Int) + x.q + 1) * 30103 / 100000 + 2

/-- The first grid of `10 ^ exponent`, `10 ^ (exponent - 1)`, … with a point in the interval. -/
def Binary.search (x : Binary) (tie : Tie) : Nat → Int → Option Scaled
  | 0, _ => none
  | steps + 1, exponent =>
    match (x.grid exponent).nearest? tie with
    | some digits => some ⟨digits, exponent⟩
    | none => x.search tie steps (exponent - 1)

/-- The value itself as a decimal. -/
def Binary.exact (x : Binary) : Scaled :=
  if x.q < 0 then ⟨x.m * Nat.pow 5 (-x.q).toNat, x.q⟩ else ⟨x.m * Nat.pow 2 x.q.toNat, 0⟩

/-- The shortest decimal in the interval, and of several the nearest. Seventeen digits always
suffice, so the search covers every grid that can be the first. -/
def Binary.shortest (x : Binary) (tie : Tie) : Scaled :=
  (x.search tie 22 x.ceiling).getD x.exact

end TwoWaySql.Decimal
