import TwoWaySql.Tree

/-!
# Listed trees

The nodes of a tree in the order of their numbers, each with the numbers of its parts in place of
the parts themselves. Two trees are the same if their listings are.
-/

namespace TwoWaySql

/-- A branch of a listed chain: its condition, the number of its body and where it starts. -/
structure ListedBranch where
  condition : String
  body : NodeId
  position : Position
  deriving DecidableEq, Repr

/-- The last branch of a listed chain: the number of its body and where it starts. -/
structure ListedElse where
  body : NodeId
  position : Position
  deriving DecidableEq, Repr

/-- A node with the numbers of its parts. -/
inductive ListedNode where
  | text (content : String)
  | bind (name : String) (paren : Bool)
  | embedded (name : String) (quoted : Bool)
  /-- The body of a branch or of the whole template. -/
  | sequence (parts : List NodeId)
  | chain (branches : List ListedBranch) (otherwise : Option ListedElse)
  | block (parts : List NodeId)
  deriving DecidableEq, Repr

/-- The numbers of the nodes of a sequence, the first of which starts at the number `start`. -/
def Node.ids (start : NodeId) : List Node → List NodeId
  | [] => []
  | node :: rest => (start + node.count - 1) :: Node.ids (start + node.count) rest

/-- The branches of a chain behind the first one, with the numbers of their bodies. -/
def Chain.listedBranches (start : NodeId) : Chain → List ListedBranch
  | .done => []
  | .elseIf condition position body rest =>
    ⟨condition, start + Node.countAll body, position⟩ ::
      rest.listedBranches (start + Node.countAll body + 1)
  | .otherwise _ _ => []

/-- The last branch of a chain, if it has no condition, with the number of its body. -/
def Chain.listedElse? (start : NodeId) : Chain → Option ListedElse
  | .done => none
  | .elseIf _ _ body rest => rest.listedElse? (start + Node.countAll body + 1)
  | .otherwise position body => some ⟨start + Node.countAll body, position⟩

mutual

/-- A node behind the nodes below it; the first of them has the number `start`. -/
def Node.listing (start : NodeId) : Node → List ListedNode
  | .text content => [.text content]
  | .bind name paren => [.bind name paren]
  | .embedded name quoted => [.embedded name quoted]
  | .chain condition position body rest =>
    let next := start + Node.countAll body + 1
    Node.listingAll start body ++ [.sequence (Node.ids start body)] ++ rest.listing next ++
      [.chain (⟨condition, start + Node.countAll body, position⟩ :: rest.listedBranches next)
        (rest.listedElse? next)]
  | .block body => Node.listingAll start body ++ [.block (Node.ids start body)]

/-- The bodies of the further branches of a chain, each behind the nodes below it. -/
def Chain.listing (start : NodeId) : Chain → List ListedNode
  | .done => []
  | .elseIf _ _ body rest =>
    Node.listingAll start body ++ [.sequence (Node.ids start body)] ++
      rest.listing (start + Node.countAll body + 1)
  | .otherwise _ body => Node.listingAll start body ++ [.sequence (Node.ids start body)]

def Node.listingAll (start : NodeId) : List Node → List ListedNode
  | [] => []
  | node :: rest => node.listing start ++ Node.listingAll (start + node.count) rest

end

namespace Tree

/-- The nodes of a tree in the order of their numbers. The last one is the whole template. -/
def listing (t : Tree) : List ListedNode :=
  Node.listingAll 0 t.nodes ++ [.sequence (Node.ids 0 t.nodes)]

def root (t : Tree) : NodeId := Node.countAll t.nodes

instance : BEq Tree := ⟨fun s t => s.listing == t.listing⟩

end Tree

mutual

/-- A node's listing has as many entries as the node takes numbers. -/
theorem Node.length_listing (start : NodeId) :
    ∀ node : Node, (node.listing start).length = node.count
  | .text _ => rfl
  | .bind _ _ => rfl
  | .embedded _ _ => rfl
  | .chain _ _ body rest => by
    simp only [Node.listing, Node.count, List.length_append, List.length_singleton,
      Node.length_listingAll, Chain.length_listing]
  | .block body => by
    simp only [Node.listing, Node.count, List.length_append, List.length_singleton,
      Node.length_listingAll]

theorem Chain.length_listing (start : NodeId) :
    ∀ chain : Chain, (chain.listing start).length = chain.count
  | .done => rfl
  | .elseIf _ _ body rest => by
    simp only [Chain.listing, Chain.count, List.length_append, List.length_singleton,
      Node.length_listingAll, Chain.length_listing]
  | .otherwise _ body => by
    simp only [Chain.listing, Chain.count, List.length_append, List.length_singleton,
      Node.length_listingAll]

theorem Node.length_listingAll (start : NodeId) :
    ∀ nodes : List Node, (Node.listingAll start nodes).length = Node.countAll nodes
  | [] => rfl
  | node :: rest => by
    simp only [Node.listingAll, Node.countAll, List.length_append, Node.length_listing,
      Node.length_listingAll]

end

/-- A tree's listing has as many entries as the tree takes numbers. -/
theorem Tree.length_listing (t : Tree) : t.listing.length = t.count := by
  simp [Tree.listing, Tree.count, Node.length_listingAll]

end TwoWaySql
