import TwoWaySql.Draft
import TwoWaySql.Evaluator
import TwoWaySql.Text.Blank
import TwoWaySql.Tree

/-!
# Rendering trees

The nodes of a tree are rendered onto a draft one after the other. A chain enters the body of its
first branch whose condition holds; an optional block is rendered onto a draft of its own and
settled.
-/

namespace TwoWaySql

/-- What a tree is rendered against. -/
structure Surroundings where
  lookup : Lookup
  evaluator : Evaluator
  mappers : List Mapper

namespace Surroundings

/-- Whether events tell of a condition: not of a bare truth value. -/
def isTold (condition : String) : Bool :=
  let condition := Text.trim condition.toList
  condition != "true".toList && condition != "false".toList

/-- The event of a condition that was evaluated. -/
def evaluated (s : Surroundings) (condition : String) (result : Bool) : Event :=
  .evaluatedCondition condition result
    ((s.evaluator.identifiers condition).map fun path => ⟨path, s.lookup.path? path⟩)

/-- A step that depends on a condition. Its value has to be a boolean. -/
def decide (s : Surroundings) (condition : String) (d : Draft) (next : Bool → Draft → Progress) :
    Progress :=
  match s.evaluator.evaluate condition s.lookup with
  | .error e => .failed d e
  | .ok (.bool b) => next b (if isTold condition then d.log (s.evaluated condition b) else d)
  | .ok v => .failed d (.evaluationType condition v.typeName)

end Surroundings

/-- The draft on which the body of a branch is rendered. -/
def Draft.enter (d : Draft) (branch : NodeId) (outcome : Outcome) : Draft :=
  ((d.record branch .passed).log (.resolvedChain outcome)).markLive

mutual

/-- Renders a node whose numbers start at `start`. -/
def Node.render (s : Surroundings) (start : NodeId) : Node → Draft → Progress
  | .text content, d => .done (d.write content)
  | .bind name paren, d => d.withVariable s.lookup name (Draft.bindVariable s.mappers name paren)
  | .embedded name quoted, d => d.withVariable s.lookup name (Draft.embedVariable s.mappers quoted)
  | .chain condition _ body rest, d =>
    let id := start + Node.countAll body
    s.decide condition d fun holds d =>
      if holds then Node.renderAll s start body (d.enter id .first)
      else rest.render s (id + 1) 1 (d.record id .failed)
  | .block body, d => (Node.renderAll s start body d.inside).andThen d.settle

/-- Renders what follows the branches of a chain of which no condition holds; `number` is the number
of the next branch with a condition. -/
def Chain.render (s : Surroundings) (start : NodeId) (number : Nat) : Chain → Draft → Progress
  | .done, d => .done (d.log (.resolvedChain .nothing))
  | .elseIf condition _ body rest, d =>
    let id := start + Node.countAll body
    s.decide condition d fun holds d =>
      if holds then Node.renderAll s start body (d.enter id (.elseIf number))
      else rest.render s (id + 1) (number + 1) (d.record id .failed)
  | .otherwise _ body, d =>
    Node.renderAll s start body (d.enter (start + Node.countAll body) .otherwise)

def Node.renderAll (s : Surroundings) (start : NodeId) : List Node → Draft → Progress
  | [], d => .done d
  | node :: rest, d => (node.render s start d).andThen (Node.renderAll s (start + node.count) rest)

end

/-- Renders a tree. -/
def Tree.render (s : Surroundings) (t : Tree) (d : Draft) : Progress := Node.renderAll s 0 t.nodes d

end TwoWaySql
