import TwoWaySql.Value.Dump
import TwoWaySql.Value.Path

/-!
# Events

What a transformation tells about its course. Each event has a level, a message and fields.
-/

namespace TwoWaySql

/-- Which branch of a chain was entered. -/
inductive Outcome where
  | first
  /-- One of the further branches with a condition, counted from one. -/
  | elseIf (number : Nat)
  | otherwise
  | nothing
  deriving DecidableEq, Repr

/-- The outcome in words. -/
def Outcome.text : Outcome → String
  | first => "Then"
  | elseIf number => s!"ElseIf({number})"
  | otherwise => "Else"
  | nothing => "NoneTaken"

/-- A path that a condition reads, and what it leads to. -/
structure PathReading where
  path : String
  found : Except PathFault (Option Value)

/-- The reading in words. -/
def PathReading.text (r : PathReading) : String :=
  r.path ++ "=" ++ match r.found with
    | .ok (some v) => v.dump
    | .ok none => "<absent>"
    | .error fault => "<" ++ fault.message ++ ">"

/-- An event. -/
inductive Event where
  | parsedTemplate (nodes : Nat)
  | evaluatedCondition (expression : String) (result : Bool) (readings : List PathReading)
  | resolvedChain (outcome : Outcome)
  | discardedBlock (fragments binds : Nat)
  | transformedTemplate (name : String) (binds : Nat)

/-- The levels of events. -/
inductive EventLevel where
  | debug
  | trace
  deriving DecidableEq, Repr

namespace Event

/-- The level of an event. -/
def level : Event → EventLevel
  | evaluatedCondition _ _ _ => .debug
  | _ => .trace

/-- The message of an event. -/
def message : Event → String
  | parsedTemplate _ => "parsed template"
  | evaluatedCondition _ _ _ => "evaluated condition"
  | resolvedChain _ => "conditional resolved"
  | discardedBlock _ _ => "discarding optional block"
  | transformedTemplate _ _ => "transformed template"

/-- The fields of an event, with their values in words. -/
def fields : Event → List (String × String)
  | parsedTemplate nodes => [("nodes", toString nodes)]
  | evaluatedCondition expression result readings =>
    [("expression", expression), ("result", toString result),
     ("parameters", Text.listed (readings.map PathReading.text))]
  | resolvedChain outcome => [("outcome", outcome.text)]
  | discardedBlock fragments binds =>
    [("fragments", toString fragments), ("binds", toString binds)]
  | transformedTemplate name binds => [("template", name), ("binds", toString binds)]

end Event

end TwoWaySql
