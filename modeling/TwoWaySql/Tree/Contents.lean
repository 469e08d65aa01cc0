import TwoWaySql.Coverage.Report
import TwoWaySql.Tree

/-!
# Variables and branches of a tree

What a tree mentions, in the order of the source: the names of its variables and the branches of its
chains. A branch comes in front of what its body holds, so the branches of a nested chain stand
between those of the chain around it.
-/

namespace TwoWaySql

mutual

/-- The names of the variables of a node, with repetitions. -/
def Node.names : Node → List String
  | .text _ => []
  | .bind name _ => [name]
  | .embedded name _ => [name]
  | .chain _ _ body rest => Node.namesAll body ++ rest.names
  | .block body => Node.namesAll body

def Chain.names : Chain → List String
  | .done => []
  | .elseIf _ _ body rest => Node.namesAll body ++ rest.names
  | .otherwise _ body => Node.namesAll body

def Node.namesAll : List Node → List String
  | [] => []
  | node :: rest => node.names ++ Node.namesAll rest

end

mutual

def Node.branches (start : NodeId) : Node → List Branch
  | .text _ => []
  | .bind _ _ => []
  | .embedded _ _ => []
  | .chain condition position body rest =>
    let id := start + Node.countAll body
    ⟨id, .ifThen, some condition, position⟩ ::
      (Node.branchesAll start body ++ rest.branches (id + 1))
  | .block body => Node.branchesAll start body

def Chain.branches (start : NodeId) : Chain → List Branch
  | .done => []
  | .elseIf condition position body rest =>
    let id := start + Node.countAll body
    ⟨id, .elseIf, some condition, position⟩ ::
      (Node.branchesAll start body ++ rest.branches (id + 1))
  | .otherwise position body =>
    ⟨start + Node.countAll body, .otherwise, none, position⟩ :: Node.branchesAll start body

def Node.branchesAll (start : NodeId) : List Node → List Branch
  | [] => []
  | node :: rest => node.branches start ++ Node.branchesAll (start + node.count) rest

end

namespace Tree

def parameters (t : Tree) : List String := (Node.namesAll t.nodes).eraseDups

def branches (t : Tree) : List Branch := Node.branchesAll 0 t.nodes

end Tree

end TwoWaySql
