import TwoWaySql.Position

/-!
# Template trees

A template is a sequence of nodes. Text and variables are leaves; a chain of conditions holds a
sequence for each branch, and an optional block holds one. Nodes have numbers: a node comes behind
the nodes below it, the sequence of a branch is numbered like a node, and so is the sequence of the
whole template, which comes last. `Node.count` and its companions say how many numbers a part of a
tree takes, so that the number of every branch follows from where its part of the tree starts.
-/

namespace TwoWaySql

mutual

/-- A node of a template. -/
inductive Node where
  | text (content : String)
  | bind (name : String) (paren : Bool)
  | embedded (name : String) (quoted : Bool)
  /-- A chain: the first condition with its body, and what follows. -/
  | chain (condition : String) (position : Position) (body : List Node) (rest : Chain)
  | block (body : List Node)

/-- What follows a branch of a chain. -/
inductive Chain where
  | done
  /-- A further condition with its body. -/
  | elseIf (condition : String) (position : Position) (body : List Node) (rest : Chain)
  /-- The body for when no condition holds. -/
  | otherwise (position : Position) (body : List Node)

end

/-- The number of a node in its template. -/
abbrev NodeId := Nat

mutual

/-- How many numbers a node takes: one for itself and those of the parts below it. -/
def Node.count : Node → Nat
  | .text _ => 1
  | .bind _ _ => 1
  | .embedded _ _ => 1
  | .chain _ _ body rest => Node.countAll body + 1 + rest.count + 1
  | .block body => Node.countAll body + 1

def Chain.count : Chain → Nat
  | .done => 0
  | .elseIf _ _ body rest => Node.countAll body + 1 + rest.count
  | .otherwise _ body => Node.countAll body + 1

/-- How many numbers a sequence of nodes takes, without one for the sequence itself. -/
def Node.countAll : List Node → Nat
  | [] => 0
  | node :: rest => node.count + Node.countAll rest

end

/-- A template's tree. -/
structure Tree where
  nodes : List Node

/-- How many numbers a tree takes. -/
def Tree.count (t : Tree) : Nat := Node.countAll t.nodes + 1

end TwoWaySql
