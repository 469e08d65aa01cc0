import Mathlib.Data.List.Chain
import Mathlib.Logic.Relation
import TwoWaySql.Proofs.Arenas

/-!
# Arenas are trees in post-order

A node of an arena names its parts by their numbers, and the recursions on an arena look them up.
This file

1. takes the listing of a node apart into what the arena holds for its parts (`Arena.Holds`);
2. shows that listed nodes name smaller numbers only, and each number once (`Arena.Ordered`): a node
   that is complete is named by nothing yet, and the node that it becomes a part of names it;
3. bounds the ways down from a node by its depth (`Arena.Bounded`);
4. shows what a walk meets (`Node.visits`), each node with its number once (`Node.visits_perm`), and
   that an arena is rendered as its tree is (`Node.render_listing`);
5. concludes that the arena of a row of tokens is a tree in post-order
   (`Arena.ofItems_postOrder`).
-/

namespace TwoWaySql

/-- The numbers of the bodies of a chain behind the first one. -/
def Chain.bodies (start : Nat) (chain : Chain) : List NodeId :=
  (chain.listedBranches start).map ListedBranch.body ++
    ((chain.listedElse? start).map ListedElse.body).toList

/-- Whether a node counts as a level of nesting. -/
def ListedNode.nests : ListedNode → Bool
  | .chain _ _ | .block _ => true
  | _ => false

namespace Arena

variable {a : Arena} {start : Nat}

/-! ## What an arena holds -/

/-- From the number `start` on the arena holds these nodes. -/
def Holds (a : Arena) (start : Nat) (nodes : List ListedNode) : Prop :=
  ∀ entry ∈ nodes.zipIdx start, a.nodes[entry.2]? = some entry.1

theorem holds_append {front nodes : List ListedNode} :
    a.Holds start (front ++ nodes) ↔
      a.Holds start front ∧ a.Holds (start + front.length) nodes := by
  rw [Holds, List.zipIdx_append, List.forall_mem_append]
  rfl

theorem holds_singleton {node : ListedNode} :
    a.Holds start [node] ↔ a.nodes[start]? = some node := by
  rw [Holds, List.zipIdx_singleton, List.forall_mem_singleton]

theorem holds_arena (t : Tree) : t.arena.Holds 0 (Node.listingBody 0 t.nodes) := by
  intro entry hentry
  exact List.mem_zipIdx_iff_getElem?.1 hentry

namespace Holds

theorem cons {node : Node} {rest : List Node}
    (h : a.Holds start (Node.listingAll start (node :: rest))) :
    a.Holds start (node.listing start) ∧
      a.Holds (start + node.count) (Node.listingAll (start + node.count) rest) := by
  rw [Node.listingAll, holds_append, Node.length_listing] at h
  exact h

theorem body {body : List Node} (h : a.Holds start (Node.listingBody start body)) :
    a.Holds start (Node.listingAll start body) ∧
      a.nodes[start + Node.countAll body]? = some (.sequence (Node.ids start body)) := by
  rw [Node.listingBody, holds_append, Node.length_listingAll, holds_singleton] at h
  exact h

theorem block {body : List Node} (h : a.Holds start ((Node.block body).listing start)) :
    a.Holds start (Node.listingAll start body) ∧
      a.nodes[start + (Node.block body).count - 1]? = some (.block (Node.ids start body)) := by
  rw [Node.listing, holds_append, Node.length_listingAll, holds_singleton] at h
  exact h

theorem elseIf {condition : String} {position : Position} {body : List Node} {rest : Chain}
    (h : a.Holds start ((Chain.elseIf condition position body rest).listing start)) :
    a.Holds start (Node.listingBody start body) ∧
      a.Holds (start + Node.countAll body + 1) (rest.listing (start + Node.countAll body + 1)) := by
  rw [Chain.listing, ← Node.listingBody, holds_append, Node.length_listingBody] at h
  exact h

theorem otherwise {position : Position} {body : List Node}
    (h : a.Holds start ((Chain.otherwise position body).listing start)) :
    a.Holds start (Node.listingBody start body) := h

theorem chain {condition : String} {position : Position} {body : List Node} {rest : Chain}
    (h : a.Holds start ((Node.chain condition position body rest).listing start)) :
    let next := start + Node.countAll body + 1
    a.Holds start (Node.listingBody start body) ∧ a.Holds next (rest.listing next) ∧
      a.nodes[start + (Node.chain condition position body rest).count - 1]? =
        some (.chain (⟨condition, start + Node.countAll body, position⟩ ::
          rest.listedBranches next) (rest.listedElse? next)) := by
  rw [Node.listing, ← Node.listingBody, holds_append, holds_append, Node.length_listingBody,
    List.length_append, Node.length_listingBody, Chain.length_listing, holds_singleton] at h
  obtain ⟨⟨hbody, hrest⟩, hentry⟩ := h
  exact ⟨hbody, hrest, hentry⟩

end Holds

/-! ## Numbers of parts -/

/-- A chain has a branch, and its bodies are sequences. -/
def Bodied (a : Arena) (node : ListedNode) : Prop :=
  ∀ branches otherwise, node = .chain branches otherwise →
    branches ≠ [] ∧ ∀ body ∈ node.parts, ∃ parts, a.nodes[body]? = some (.sequence parts)

/-- From the number `start` on, nodes name smaller numbers only, and each number of theirs but the
open ones once. -/
structure Ordered (a : Arena) (start : Nat) (nodes : List ListedNode) (opens : List NodeId) :
    Prop where
  below : ∀ entry ∈ nodes.zipIdx start, ∀ part ∈ entry.1.parts, part < entry.2
  once : (nodes.flatMap ListedNode.parts ++ opens).Perm (List.range' start nodes.length)
  bodied : ∀ node ∈ nodes, a.Bodied node

namespace Ordered

variable {nodes more : List ListedNode} {opens behind : List NodeId}

theorem nil (a : Arena) (start : Nat) : a.Ordered start [] [] where
  below := fun _ hentry => absurd hentry List.not_mem_nil
  once := .refl []
  bodied := fun _ hnode => absurd hnode List.not_mem_nil

theorem append (h : a.Ordered start nodes opens)
    (hmore : a.Ordered (start + nodes.length) more behind) :
    a.Ordered start (nodes ++ more) (opens ++ behind) where
  below := by
    rw [List.zipIdx_append, List.forall_mem_append]
    exact ⟨h.below, hmore.below⟩
  once := by
    have hboth := h.once.append hmore.once
    rw [List.range'_append_1] at hboth
    rw [List.flatMap_append, List.length_append]
    -- what is open in front moves behind the parts of the others
    refine List.Perm.trans ?_ hboth
    rw [List.append_assoc, List.append_assoc]
    exact (List.perm_append_comm_assoc _ _ _).append_left _
  bodied := List.forall_mem_append.2 ⟨h.bodied, hmore.bodied⟩

/-- A node that names what is open is itself what is open behind it. -/
theorem close {node : ListedNode} (hbodied : a.Bodied node)
    (h : a.Ordered start nodes node.parts) :
    a.Ordered start (nodes ++ [node]) [start + nodes.length] where
  below := by
    rw [List.zipIdx_append, List.forall_mem_append, List.zipIdx_singleton,
      List.forall_mem_singleton]
    refine ⟨h.below, fun part hpart => ?_⟩
    have hrange := h.once.mem_iff.1 (List.mem_append_right _ hpart)
    exact (List.mem_range'_1.1 hrange).2
  once := by
    rw [List.flatMap_append, List.flatMap_singleton, List.length_append, List.length_singleton,
      List.range'_1_concat]
    exact h.once.append_right _
  bodied := List.forall_mem_append.2 ⟨h.bodied, List.forall_mem_singleton.2 hbodied⟩

end Ordered

/-- A node other than a chain has no bodies. -/
theorem bodied_of_ne {node : ListedNode}
    (h : ∀ branches otherwise, node ≠ .chain branches otherwise) : a.Bodied node :=
  fun branches otherwise heq => absurd heq (h branches otherwise)

end Arena

open Arena (Holds)

theorem Chain.bodies_found {a : Arena} (start : Nat) : ∀ chain : Chain,
    a.Holds start (chain.listing start) →
      ∀ body ∈ chain.bodies start, ∃ parts, a.nodes[body]? = some (.sequence parts)
  | .done, _ => fun body hbody => absurd hbody List.not_mem_nil
  | .elseIf condition position body rest, h => by
    obtain ⟨hbody, hrest⟩ := h.elseIf
    exact List.forall_mem_cons.2 ⟨⟨_, hbody.body.2⟩, Chain.bodies_found _ rest hrest⟩
  | .otherwise position body, h => List.forall_mem_singleton.2 ⟨_, h.otherwise.body.2⟩

/-- The body of a branch: it is a sequence, and names what is open in it. -/
theorem Arena.Ordered.body {a : Arena} {start : Nat} {body : List Node}
    (h : a.Ordered start (Node.listingAll start body) (Node.ids start body)) :
    a.Ordered start (Node.listingBody start body) [start + Node.countAll body] := by
  have hsequence : a.Bodied (.sequence (Node.ids start body)) :=
    bodied_of_ne fun branches otherwise heq => by cases heq
  have hclosed := Ordered.close hsequence h
  rwa [Node.length_listingAll] at hclosed

/-- The body of a branch with those of what follows the branch. -/
theorem Arena.Ordered.branch {a : Arena} {start : Nat} {body : List Node} {rest : Chain}
    (h : a.Ordered start (Node.listingAll start body) (Node.ids start body))
    (hrest : a.Ordered (start + Node.countAll body + 1)
      (rest.listing (start + Node.countAll body + 1))
      (rest.bodies (start + Node.countAll body + 1))) :
    a.Ordered start
      (Node.listingBody start body ++ rest.listing (start + Node.countAll body + 1))
      ((start + Node.countAll body) :: rest.bodies (start + Node.countAll body + 1)) := by
  refine h.body.append ?_
  rw [Node.length_listingBody]
  exact hrest

theorem Arena.Ordered.leaf {a : Arena} {start : Nat} {node : ListedNode} (hparts : node.parts = [])
    (hnode : ∀ branches otherwise, node ≠ .chain branches otherwise) :
    a.Ordered start [node] [start] := by
  have hnil := Ordered.nil a start
  rw [← hparts] at hnil
  exact hnil.close (bodied_of_ne hnode)

mutual

theorem Node.ordered {a : Arena} (start : Nat) : ∀ node : Node, a.Holds start (node.listing start) →
    a.Ordered start (node.listing start) [start + node.count - 1]
  | .text _, _ => .leaf rfl fun branches otherwise heq => by cases heq
  | .bind _ _, _ => .leaf rfl fun branches otherwise heq => by cases heq
  | .embedded _ _, _ => .leaf rfl fun branches otherwise heq => by cases heq
  | .chain condition position body rest, h => by
    obtain ⟨hbody, hrest, hentry⟩ := h.chain
    have hopens := (Node.orderedAll start body hbody.body.1).branch (Chain.ordered _ rest hrest)
    have hfound := Chain.bodies_found _ rest hrest
    have hchain : a.Bodied (.chain (⟨condition, start + Node.countAll body, position⟩ ::
        rest.listedBranches (start + Node.countAll body + 1))
        (rest.listedElse? (start + Node.countAll body + 1))) := by
      intro branches otherwise heq
      cases heq
      exact ⟨List.cons_ne_nil _ _, List.forall_mem_cons.2 ⟨⟨_, hbody.body.2⟩, hfound⟩⟩
    have hclosed := Arena.Ordered.close hchain hopens
    rw [List.length_append, Node.length_listingBody, Chain.length_listing] at hclosed
    exact hclosed
  | .block body, h => by
    have hbody := Node.orderedAll start body h.block.1
    have hblock : a.Bodied (.block (Node.ids start body)) :=
      Arena.bodied_of_ne fun branches otherwise heq => by cases heq
    have hclosed := Arena.Ordered.close hblock hbody
    rwa [Node.length_listingAll] at hclosed

theorem Chain.ordered {a : Arena} (start : Nat) : ∀ chain : Chain,
    a.Holds start (chain.listing start) →
      a.Ordered start (chain.listing start) (chain.bodies start)
  | .done, _ => .nil a start
  | .elseIf condition position body rest, h => by
    obtain ⟨hbody, hrest⟩ := h.elseIf
    exact (Node.orderedAll start body hbody.body.1).branch (Chain.ordered _ rest hrest)
  | .otherwise position body, h => (Node.orderedAll start body h.otherwise.body.1).body

theorem Node.orderedAll {a : Arena} (start : Nat) : ∀ nodes : List Node,
    a.Holds start (Node.listingAll start nodes) →
      a.Ordered start (Node.listingAll start nodes) (Node.ids start nodes)
  | [], _ => .nil a start
  | node :: rest, h => by
    obtain ⟨hnode, hrest⟩ := h.cons
    refine (Node.ordered start node hnode).append ?_
    rw [Node.length_listing]
    exact Node.orderedAll (start + node.count) rest hrest

end

/-! ## Ways down -/

namespace Arena

variable {a : Arena}

/-- The node with the one number names the other number. -/
def Names (a : Arena) (id part : NodeId) : Prop :=
  ∃ node, a.nodes[id]? = some node ∧ part ∈ node.parts

/-- How many of the numbers are those of chains and blocks. -/
def crossings (a : Arena) (way : List NodeId) : Nat :=
  way.countP fun id => a.nodes[id]?.any ListedNode.nests

/-- The ways down from a node meet so many chains and blocks at most, and so many nodes. -/
def Bounded (a : Arena) (id : NodeId) (nesting length : Nat) : Prop :=
  ∀ way, List.IsChain a.Names (id :: way) →
    a.crossings (id :: way) ≤ nesting ∧ (id :: way).length ≤ length

theorem Bounded.mono {id : NodeId} {nesting length nesting' length' : Nat}
    (h : a.Bounded id nesting length) (hnesting : nesting ≤ nesting') (hlength : length ≤ length') :
    a.Bounded id nesting' length' := by
  intro way hway
  obtain ⟨hcrossings, hnodes⟩ := h way hway
  exact ⟨Nat.le_trans hcrossings hnesting, Nat.le_trans hnodes hlength⟩

/-- A way down from a node ends there or goes on from one of its parts. -/
theorem Bounded.up {id : NodeId} {node : ListedNode} (nesting length : Nat)
    (hfound : a.nodes[id]? = some node) (h : ∀ part ∈ node.parts, a.Bounded part nesting length) :
    a.Bounded id (nesting + if node.nests then 1 else 0) (length + 1) := by
  intro way hway
  have hcrossings : a.crossings (id :: way) =
      a.crossings way + if node.nests then 1 else 0 := by
    rw [crossings, List.countP_cons, hfound]
    rfl
  rw [hcrossings]
  cases way with
  | nil => exact ⟨Nat.add_le_add_right (Nat.zero_le _) _, Nat.le_add_left 1 length⟩
  | cons part way =>
    obtain ⟨⟨named, hnamed, hpart⟩, hrest⟩ := List.isChain_cons_cons.1 hway
    obtain rfl := Option.some.inj (hfound.symm.trans hnamed)
    obtain ⟨hbelow, hlength⟩ := h part hpart way hrest
    exact ⟨Nat.add_le_add_right hbelow _, Nat.succ_le_succ hlength⟩

theorem Bounded.leaf {id : NodeId} {node : ListedNode} (hfound : a.nodes[id]? = some node)
    (hparts : node.parts = []) (hnests : node.nests = false) : a.Bounded id 0 1 := by
  have hup := Bounded.up 0 0 hfound
    (by rw [hparts]; exact fun _ hpart => absurd hpart List.not_mem_nil)
  rwa [hnests] at hup

/-- A common bound of a part and of those behind it. -/
theorem Bounded.cons {id : NodeId} {ids : List NodeId} {nesting length nesting' length' : Nat}
    (most most' : Nat) (h : a.Bounded id nesting length)
    (hrest : ∀ part ∈ ids, a.Bounded part nesting' length')
    (hnesting : nesting ≤ most ∧ nesting' ≤ most) (hlength : length ≤ most' ∧ length' ≤ most') :
    ∀ part ∈ id :: ids, a.Bounded part most most' :=
  List.forall_mem_cons.2 ⟨h.mono hnesting.1 hlength.1, fun part hpart =>
    (hrest part hpart).mono hnesting.2 hlength.2⟩

/-- The body of a branch is one node more on the way, and nests nothing. -/
theorem Bounded.body {start : Nat} {body : List Node}
    (h : a.Holds start (Node.listingBody start body))
    (hparts : ∀ part ∈ Node.ids start body,
      a.Bounded part (Node.depthAll body) (2 * Node.depthAll body + 1)) :
    a.Bounded (start + Node.countAll body) (Node.depthAll body) (2 * Node.depthAll body + 2) :=
  .up _ _ h.body.2 hparts

end Arena

mutual

theorem Node.bounded {a : Arena} (start : Nat) : ∀ node : Node, a.Holds start (node.listing start) →
    a.Bounded (start + node.count - 1) node.depth (2 * node.depth + 1)
  | .text _, h => .leaf (Arena.holds_singleton.1 h) rfl rfl
  | .bind _ _, h => .leaf (Arena.holds_singleton.1 h) rfl rfl
  | .embedded _ _, h => .leaf (Arena.holds_singleton.1 h) rfl rfl
  | .chain condition position body rest, h => by
    obtain ⟨hbody, hrest, hentry⟩ := h.chain
    rw [Node.depth]
    have hfirst := Arena.Bounded.body hbody (Node.boundedAll start body hbody.body.1)
    have hbehind := Chain.bounded (start + Node.countAll body + 1) rest hrest
    have hbodies := hfirst.cons (max (Node.depthAll body) rest.depth)
      (2 * max (Node.depthAll body) rest.depth + 2) hbehind (by omega) (by omega)
    exact (Arena.Bounded.up _ _ hentry hbodies).mono (Nat.le_refl _) (by omega)
  | .block body, h => by
    obtain ⟨hbody, hentry⟩ := h.block
    rw [Node.depth]
    exact (Arena.Bounded.up _ _ hentry (Node.boundedAll start body hbody)).mono (Nat.le_refl _)
      (by omega)

theorem Chain.bounded {a : Arena} (start : Nat) : ∀ chain : Chain,
    a.Holds start (chain.listing start) →
      ∀ body ∈ chain.bodies start, a.Bounded body chain.depth (2 * chain.depth + 2)
  | .done, _ => fun _ hbody => absurd hbody List.not_mem_nil
  | .elseIf condition position body rest, h => by
    obtain ⟨hbody, hrest⟩ := h.elseIf
    have hfirst := Arena.Bounded.body hbody (Node.boundedAll start body hbody.body.1)
    have hbehind := Chain.bounded (start + Node.countAll body + 1) rest hrest
    rw [Chain.depth]
    exact hfirst.cons _ _ hbehind (by omega) (by omega)
  | .otherwise position body, h => by
    have hbody := Node.boundedAll start body h.otherwise.body.1
    exact List.forall_mem_singleton.2 (.body h.otherwise hbody)

theorem Node.boundedAll {a : Arena} (start : Nat) : ∀ nodes : List Node,
    a.Holds start (Node.listingAll start nodes) → ∀ part ∈ Node.ids start nodes,
      a.Bounded part (Node.depthAll nodes) (2 * Node.depthAll nodes + 1)
  | [], _ => fun _ hpart => absurd hpart List.not_mem_nil
  | node :: rest, h => by
    obtain ⟨hnode, hrest⟩ := h.cons
    have hfirst := Node.bounded start node hnode
    have hbehind := Node.boundedAll (start + node.count) rest hrest
    rw [Node.depthAll]
    exact hfirst.cons _ _ hbehind (by omega) (by omega)

end

/-! ## Walks -/

mutual

/-- What a walk meets from a node on, the first part of which has the number `start`. -/
def Node.visits (start : Nat) : Node → List (ListedNode × NodeId)
  | .text content => [(.text content, start)]
  | .bind name paren => [(.bind name paren, start)]
  | .embedded name quoted => [(.embedded name quoted, start)]
  | .chain condition position body rest =>
    let id := start + Node.countAll body
    (.chain (⟨condition, id, position⟩ :: rest.listedBranches (id + 1)) (rest.listedElse? (id + 1)),
        start + (Node.countAll body + 1 + rest.count)) ::
      (.sequence (Node.ids start body), id) :: (Node.visitsAll start body ++ rest.visits (id + 1))
  | .block body =>
    (.block (Node.ids start body), start + Node.countAll body) :: Node.visitsAll start body

/-- What a walk meets in the branches of a chain behind the first one. -/
def Chain.visits (start : Nat) : Chain → List (ListedNode × NodeId)
  | .done => []
  | .elseIf _ _ body rest =>
    let id := start + Node.countAll body
    (.sequence (Node.ids start body), id) :: (Node.visitsAll start body ++ rest.visits (id + 1))
  | .otherwise _ body =>
    (.sequence (Node.ids start body), start + Node.countAll body) :: Node.visitsAll start body

def Node.visitsAll (start : Nat) : List Node → List (ListedNode × NodeId)
  | [] => []
  | node :: rest => node.visits start ++ Node.visitsAll (start + node.count) rest

end

/-- What a walk meets in a whole tree. -/
def Tree.visits (t : Tree) : List (ListedNode × NodeId) :=
  (.sequence (Node.ids 0 t.nodes), t.root) :: Node.visitsAll 0 t.nodes

/-- A node in front of its parts is met instead of behind them. -/
theorem visits_closed {start : Nat} {below : List ListedNode} {visits : List (ListedNode × NodeId)}
    (h : visits.Perm (below.zipIdx start)) (node : ListedNode) :
    ((node, start + below.length) :: visits).Perm ((below ++ [node]).zipIdx start) := by
  rw [List.zipIdx_append, List.zipIdx_singleton]
  exact (h.cons _).trans (List.perm_append_singleton _ _).symm

theorem visits_body {start : Nat} {body : List Node} {visits : List (ListedNode × NodeId)}
    (h : visits.Perm ((Node.listingAll start body).zipIdx start)) :
    ((.sequence (Node.ids start body), start + Node.countAll body) :: visits).Perm
      ((Node.listingBody start body).zipIdx start) := by
  have hclosed := visits_closed h (.sequence (Node.ids start body))
  rwa [Node.length_listingAll] at hclosed

theorem visits_branch {start : Nat} {body : List Node} {behind : List ListedNode}
    {visits more : List (ListedNode × NodeId)}
    (h : visits.Perm ((Node.listingAll start body).zipIdx start))
    (hmore : more.Perm (behind.zipIdx (start + Node.countAll body + 1))) :
    ((.sequence (Node.ids start body), start + Node.countAll body) :: (visits ++ more)).Perm
      ((Node.listingBody start body ++ behind).zipIdx start) := by
  rw [List.zipIdx_append, Node.length_listingBody]
  exact (visits_body h).append hmore

mutual

/-- A walk meets each node once, with its number. -/
theorem Node.visits_perm (start : Nat) : ∀ node : Node,
    (node.visits start).Perm ((node.listing start).zipIdx start)
  | .text _ | .bind _ _ | .embedded _ _ => .refl _
  | .chain condition position body rest => by
    have hbodies := visits_branch (Node.visitsAll_perm start body)
      (Chain.visits_perm (start + Node.countAll body + 1) rest)
    have hchain := visits_closed hbodies
      (.chain (⟨condition, start + Node.countAll body, position⟩ ::
        rest.listedBranches (start + Node.countAll body + 1))
        (rest.listedElse? (start + Node.countAll body + 1)))
    rw [List.length_append, Node.length_listingBody, Chain.length_listing] at hchain
    exact hchain
  | .block body => by
    have hblock := visits_closed (Node.visitsAll_perm start body) (.block (Node.ids start body))
    rwa [Node.length_listingAll] at hblock

theorem Chain.visits_perm (start : Nat) : ∀ chain : Chain,
    (chain.visits start).Perm ((chain.listing start).zipIdx start)
  | .done => .nil
  | .elseIf _ _ body rest =>
    visits_branch (Node.visitsAll_perm start body)
      (Chain.visits_perm (start + Node.countAll body + 1) rest)
  | .otherwise _ body => visits_body (Node.visitsAll_perm start body)

theorem Node.visitsAll_perm (start : Nat) : ∀ nodes : List Node,
    (Node.visitsAll start nodes).Perm ((Node.listingAll start nodes).zipIdx start)
  | [] => .nil
  | node :: rest => by
    rw [Node.listingAll, List.zipIdx_append, Node.length_listing]
    exact (Node.visits_perm start node).append (Node.visitsAll_perm (start + node.count) rest)

end

theorem Tree.visits_perm (t : Tree) : t.visits.Perm t.listing.zipIdx := by
  have hall := visits_body (Node.visitsAll_perm 0 t.nodes)
  rwa [Nat.zero_add] at hall

namespace Arena

variable {a : Arena} {beyond : List (ListedNode × NodeId)}

/-- A walk meets a node that is found, and then what its parts lead to. -/
theorem walk_found {id : NodeId} {node : ListedNode} {visits : List (ListedNode × NodeId)}
    {levels : Nat} (hlevels : 0 < levels) (hfound : a.nodes[id]? = some node)
    (hparts : node.parts.flatMap (a.walk beyond (levels - 1)) = visits) :
    a.walk beyond levels id = (node, id) :: visits := by
  obtain ⟨levels, rfl⟩ := Nat.exists_eq_add_one.2 hlevels
  rw [walk, hfound]
  exact congrArg _ hparts

/-- A walk meets the body of a branch, and then what is in it. -/
theorem walk_body {start levels : Nat} {body : List Node} {visits : List (ListedNode × NodeId)}
    (hlevels : 0 < levels) (h : a.Holds start (Node.listingBody start body))
    (hparts : (Node.ids start body).flatMap (a.walk beyond (levels - 1)) = visits) :
    a.walk beyond levels (start + Node.countAll body) =
      (.sequence (Node.ids start body), start + Node.countAll body) :: visits :=
  walk_found hlevels h.body.2 hparts

end Arena

mutual

theorem Node.walk_listing {a : Arena} (beyond : List (ListedNode × NodeId)) (start : Nat) :
    ∀ (node : Node) (levels : Nat), a.Holds start (node.listing start) →
      2 * node.depth + 1 ≤ levels →
      a.walk beyond levels (start + node.count - 1) = node.visits start
  | .text _, levels, h, hlevels => Arena.walk_found hlevels (Arena.holds_singleton.1 h) rfl
  | .bind _ _, levels, h, hlevels => Arena.walk_found hlevels (Arena.holds_singleton.1 h) rfl
  | .embedded _ _, levels, h, hlevels => Arena.walk_found hlevels (Arena.holds_singleton.1 h) rfl
  | .chain condition position body rest, levels, h, hlevels => by
    obtain ⟨hbody, hrest, hentry⟩ := h.chain
    rw [Node.depth] at hlevels
    have hbehind := Chain.walk_listing beyond (start + Node.countAll body + 1) rest (levels - 1)
      hrest (by omega)
    refine Arena.walk_found (by omega) hentry ?_
    show a.walk beyond _ _ ++ _ = _
    rw [Arena.walk_body (by omega) hbody
      (Node.walk_listingAll beyond start body _ hbody.body.1 (by omega))]
    exact congrArg _ hbehind
  | .block body, levels, h, hlevels => by
    obtain ⟨hbody, hentry⟩ := h.block
    rw [Node.depth] at hlevels
    exact Arena.walk_found (by omega) hentry
      (Node.walk_listingAll beyond start body _ hbody (by omega))

theorem Chain.walk_listing {a : Arena} (beyond : List (ListedNode × NodeId)) (start : Nat) :
    ∀ (chain : Chain) (levels : Nat), a.Holds start (chain.listing start) →
      2 * chain.depth + 2 ≤ levels →
      (chain.bodies start).flatMap (a.walk beyond levels) = chain.visits start
  | .done, _, _, _ => rfl
  | .elseIf condition position body rest, levels, h, hlevels => by
    obtain ⟨hbody, hrest⟩ := h.elseIf
    rw [Chain.depth] at hlevels
    have hbehind := Chain.walk_listing beyond (start + Node.countAll body + 1) rest levels hrest
      (by omega)
    show a.walk beyond _ _ ++ _ = _
    rw [Arena.walk_body (by omega) hbody
      (Node.walk_listingAll beyond start body _ hbody.body.1 (by omega))]
    exact congrArg _ hbehind
  | .otherwise position body, levels, h, hlevels => by
    have hbody := h.otherwise
    rw [Chain.depth] at hlevels
    show a.walk beyond _ _ ++ [] = _
    rw [Arena.walk_body (by omega) hbody
      (Node.walk_listingAll beyond start body _ hbody.body.1 (by omega)), List.append_nil]
    rfl

theorem Node.walk_listingAll {a : Arena} (beyond : List (ListedNode × NodeId)) (start : Nat) :
    ∀ (nodes : List Node) (levels : Nat), a.Holds start (Node.listingAll start nodes) →
      2 * Node.depthAll nodes + 1 ≤ levels →
      (Node.ids start nodes).flatMap (a.walk beyond levels) = Node.visitsAll start nodes
  | [], _, _, _ => rfl
  | node :: rest, levels, h, hlevels => by
    obtain ⟨hnode, hrest⟩ := h.cons
    rw [Node.depthAll] at hlevels
    rw [Node.ids, List.flatMap_cons, Node.walk_listing beyond start node levels hnode (by omega),
      Node.walk_listingAll beyond _ rest levels hrest (by omega), Node.visitsAll]

end

/-- The walk of a tree's arena meets its nodes, and goes no deeper than its nesting. -/
theorem Tree.walk_arena (t : Tree) (beyond : List (ListedNode × NodeId)) {levels : Nat}
    (hlevels : 2 * t.depth + 2 ≤ levels) : t.arena.walk beyond levels t.root = t.visits := by
  have hbody := Arena.holds_arena t
  rw [depth] at hlevels
  have hroot := Arena.walk_body (by omega) hbody
    (Node.walk_listingAll beyond 0 t.nodes (levels - 1) hbody.body.1 (by omega))
  rwa [Nat.zero_add] at hroot

/-! ## Rendering -/

namespace Arena

variable {a : Arena} {s : Surroundings} {beyond : Draft → Progress}

/-- A node that is found is rendered by rendering its parts one level further down. -/
theorem render_found {id : NodeId} {node : ListedNode} {levels : Nat} (hlevels : 0 < levels)
    (hfound : a.nodes[id]? = some node) (d : Draft) :
    a.render s beyond levels id d = node.render s (a.render s beyond (levels - 1)) d := by
  obtain ⟨levels, rfl⟩ := Nat.exists_eq_add_one.2 hlevels
  rw [render, hfound]
  rfl

/-- The body of a branch is rendered as its nodes are. -/
theorem render_body {start levels : Nat} {body : List Node} (hlevels : 0 < levels)
    (h : a.Holds start (Node.listingBody start body))
    (hparts : ∀ d, renderParts (a.render s beyond (levels - 1)) (Node.ids start body) d =
      Node.renderAll s start body d) (d : Draft) :
    a.render s beyond levels (start + Node.countAll body) d = Node.renderAll s start body d := by
  rw [render_found hlevels h.body.2]
  exact hparts d

end Arena

mutual

/-- An arena is rendered as the nodes it lists, whatever comes of going deeper than they nest. -/
theorem Node.render_listing {a : Arena} (s : Surroundings) (beyond : Draft → Progress)
    (start : Nat) : ∀ (node : Node) (levels : Nat), a.Holds start (node.listing start) →
      2 * node.depth + 1 ≤ levels →
      ∀ d, a.render s beyond levels (start + node.count - 1) d = node.render s start d
  | .text _, levels, h, hlevels => Arena.render_found hlevels (Arena.holds_singleton.1 h)
  | .bind _ _, levels, h, hlevels => Arena.render_found hlevels (Arena.holds_singleton.1 h)
  | .embedded _ _, levels, h, hlevels => Arena.render_found hlevels (Arena.holds_singleton.1 h)
  | .chain condition position body rest, levels, h, hlevels => by
    intro d
    obtain ⟨hbody, hrest, hentry⟩ := h.chain
    rw [Node.depth] at hlevels
    rw [Arena.render_found (by omega) hentry, ListedNode.render, Arena.renderBranches, Node.render]
    refine congrArg (s.decide condition d) (funext fun holds => funext fun d => ?_)
    cases holds with
    | true =>
      exact Arena.render_body (by omega) hbody
        (Node.render_listingAll s beyond start body _ hbody.body.1 (by omega)) _
    | false => exact Chain.render_listing s beyond _ rest _ 0 hrest (by omega) _
  | .block body, levels, h, hlevels => by
    intro d
    obtain ⟨hbody, hentry⟩ := h.block
    rw [Node.depth] at hlevels
    rw [Arena.render_found (by omega) hentry, ListedNode.render, Node.render,
      Node.render_listingAll s beyond start body _ hbody (by omega)]

theorem Chain.render_listing {a : Arena} (s : Surroundings) (beyond : Draft → Progress)
    (start : Nat) : ∀ (chain : Chain) (levels number : Nat), a.Holds start (chain.listing start) →
      2 * chain.depth + 2 ≤ levels →
      ∀ d, Arena.renderBranches s (a.render s beyond levels) (chain.listedElse? start) (number + 1)
        (chain.listedBranches start) d = chain.render s start (number + 1) d
  | .done, _, _, _, _ => fun _ => rfl
  | .elseIf condition position body rest, levels, number, h, hlevels => by
    intro d
    obtain ⟨hbody, hrest⟩ := h.elseIf
    rw [Chain.depth] at hlevels
    rw [Chain.listedBranches, Arena.renderBranches, Chain.render]
    refine congrArg (s.decide condition d) (funext fun holds => funext fun d => ?_)
    cases holds with
    | true =>
      exact Arena.render_body (by omega) hbody
        (Node.render_listingAll s beyond start body _ hbody.body.1 (by omega)) _
    | false => exact Chain.render_listing s beyond _ rest levels (number + 1) hrest (by omega) _
  | .otherwise position body, levels, number, h, hlevels => by
    intro d
    have hbody := h.otherwise
    rw [Chain.depth] at hlevels
    exact Arena.render_body (by omega) hbody
      (Node.render_listingAll s beyond start body _ hbody.body.1 (by omega)) _

theorem Node.render_listingAll {a : Arena} (s : Surroundings) (beyond : Draft → Progress)
    (start : Nat) : ∀ (nodes : List Node) (levels : Nat),
      a.Holds start (Node.listingAll start nodes) → 2 * Node.depthAll nodes + 1 ≤ levels →
      ∀ d, Arena.renderParts (a.render s beyond levels) (Node.ids start nodes) d =
        Node.renderAll s start nodes d
  | [], _, _, _ => fun _ => rfl
  | node :: rest, levels, h, hlevels => by
    intro d
    obtain ⟨hnode, hrest⟩ := h.cons
    rw [Node.depthAll] at hlevels
    rw [Node.ids, Arena.renderParts, Node.renderAll,
      Node.render_listing s beyond start node levels hnode (by omega)]
    exact congrArg _ (funext (Node.render_listingAll s beyond _ rest levels hrest (by omega)))

end

/-- A tree's arena is rendered as the tree is, and goes no deeper than its nesting. -/
theorem Tree.render_arena (t : Tree) (s : Surroundings) (beyond : Draft → Progress) {levels : Nat}
    (hlevels : 2 * t.depth + 2 ≤ levels) (d : Draft) :
    t.arena.render s beyond levels t.root d = t.render s d := by
  have hbody := Arena.holds_arena t
  rw [depth] at hlevels
  have hroot := Arena.render_body (by omega) hbody
    (Node.render_listingAll s beyond 0 t.nodes (levels - 1) hbody.body.1 (by omega)) d
  rwa [Nat.zero_add] at hroot

/-! ## Arenas of rows of tokens -/

namespace Arena

/-- An arena is a tree in post-order, nested no deeper than the limit. -/
structure IsPostOrder (a : Arena) : Prop where
  last : a.nodes.length = a.root + 1
  whole : ∃ parts, a.nodes[a.root]? = some (.sequence parts)
  below : ∀ id (node : ListedNode), a.nodes[id]? = some node →
    ∀ part ∈ node.parts, part < id ∧ ∃ found, a.nodes[part]? = some found
  once : (a.nodes.flatMap ListedNode.parts).Perm (List.range a.root)
  reached : ∀ id < a.nodes.length, Relation.ReflTransGen a.Names a.root id
  visited : ∀ beyond, (a.walk beyond 130 a.root).Perm a.nodes.zipIdx
  bodied : ∀ branches otherwise, .chain branches otherwise ∈ a.nodes →
    branches ≠ [] ∧ ∀ body ∈ (ListedNode.chain branches otherwise).parts,
      ∃ parts, a.nodes[body]? = some (.sequence parts)
  nesting : ∀ way, List.IsChain a.Names (a.root :: way) → a.crossings (a.root :: way) ≤ 64
  depth : ∀ way, List.IsChain a.Names (a.root :: way) → (a.root :: way).length ≤ 130

/-- A node that is not the last one is reached through the node that names it, which has a larger
number. -/
theorem reached_of_once {a : Arena}
    (hbelow : ∀ id (node : ListedNode), a.nodes[id]? = some node → ∀ part ∈ node.parts, part < id)
    (honce : (a.nodes.flatMap ListedNode.parts).Perm (List.range a.root))
    (hlast : a.nodes.length = a.root + 1) {id rest : Nat} (hid : id + rest = a.root) :
    Relation.ReflTransGen a.Names a.root id := by
  -- the node that names this one is nearer to the last one
  induction rest using Nat.strongRecOn generalizing id with
  | ind rest ih =>
    cases Nat.eq_zero_or_pos rest with
    | inl hzero =>
      subst hzero
      exact hid ▸ .refl
    | inr hpos =>
      have hlt : id < a.root := by omega
      obtain ⟨node, hnode, hpart⟩ := List.mem_flatMap.1 (honce.mem_iff.2 (List.mem_range.2 hlt))
      obtain ⟨above, habove⟩ := List.getElem?_of_mem hnode
      have hbetween : id < above := hbelow above node habove id hpart
      have hbound : above < a.nodes.length := (List.getElem?_eq_some_iff.1 habove).1
      have hsum : above + (a.nodes.length - 1 - above) = a.root := by omega
      exact (ih _ (by omega) hsum).tail ⟨node, habove, hpart⟩

end Arena

namespace Tree

variable (t : Tree)

theorem length_arena : t.arena.nodes.length = t.root + 1 := Node.length_listingBody 0 t.nodes

theorem root_arena : t.arena.nodes[t.root]? = some (.sequence (Node.ids 0 t.nodes)) := by
  have hroot := (Arena.holds_arena t).body.2
  rwa [Nat.zero_add] at hroot

theorem ordered_arena : t.arena.Ordered 0 t.arena.nodes [t.root] := by
  have hordered := (Node.orderedAll 0 t.nodes (Arena.holds_arena t).body.1).body
  rwa [Nat.zero_add] at hordered

/-- Each number is named once but the last one, which is open. -/
theorem once_arena : (t.arena.nodes.flatMap ListedNode.parts).Perm (List.range t.root) := by
  have hall := t.ordered_arena.once
  rwa [length_arena, List.range'_1_concat, Nat.zero_add, List.perm_append_right_iff,
    ← List.range_eq_range'] at hall

theorem below_arena {id : NodeId} {node : ListedNode} (hnode : t.arena.nodes[id]? = some node) :
    ∀ part ∈ node.parts, part < id :=
  t.ordered_arena.below (node, id) (List.mem_zipIdx_iff_getElem?.2 hnode)

theorem bounded_arena : t.arena.Bounded t.root t.depth (2 * t.depth + 2) := by
  have hbody := Arena.holds_arena t
  have hways := Arena.Bounded.body hbody (Node.boundedAll 0 t.nodes hbody.body.1)
  rwa [Nat.zero_add] at hways

variable {t}

/-- A tree within the limit has no more than so many levels. -/
theorem levels_le (hdepth : t.depth ≤ maxNesting) : 2 * t.depth + 2 ≤ 130 :=
  Nat.add_le_add_right (Nat.mul_le_mul_left 2 hdepth) 2

/-- The arena of a tree within the limit is a tree in post-order. -/
theorem arena_isPostOrder (hdepth : t.depth ≤ maxNesting) : t.arena.IsPostOrder where
  last := t.length_arena
  whole := ⟨_, t.root_arena⟩
  below := by
    intro id node hnode part hpart
    have hpart := t.below_arena hnode part hpart
    have hid : id < t.arena.nodes.length := (List.getElem?_eq_some_iff.1 hnode).1
    exact ⟨hpart, _, List.getElem?_eq_getElem (Nat.lt_trans hpart hid)⟩
  once := t.once_arena
  reached := by
    intro id hid
    rw [t.length_arena] at hid
    have hsum := Nat.add_sub_cancel' (Nat.le_of_lt_succ hid)
    exact Arena.reached_of_once (fun _ _ => t.below_arena) t.once_arena t.length_arena hsum
  visited := by
    intro beyond
    show (t.arena.walk beyond 130 t.root).Perm _
    rw [t.walk_arena beyond (levels_le hdepth)]
    exact t.visits_perm
  bodied := by
    intro branches otherwise hchain
    exact t.ordered_arena.bodied _ hchain branches otherwise rfl
  nesting := by
    intro way hway
    exact Nat.le_trans (t.bounded_arena way hway).1 hdepth
  depth := by
    intro way hway
    exact Nat.le_trans (t.bounded_arena way hway).2 (levels_le hdepth)

end Tree

/-- The arena of a row of tokens is a tree in post-order: the whole template is its last node and a
sequence, every other node is a part of exactly one node, which comes behind it, and a walk meets
each node once. A chain has a branch, and its bodies are sequences. No way down crosses more than 64
chains and blocks, so walking and rendering, which find whatever they look for, go no deeper than
130 levels, and rendering does what rendering the tree does. -/
theorem Arena.ofItems_postOrder {items : List (Except Error Token)} {a : Arena}
    (h : ofItems items = .ok a) :
    a.IsPostOrder ∧ ∃ t, Tree.ofItems items = .ok t ∧ a = t.arena ∧
      ∀ s beyond d, a.render s beyond 130 a.root d = t.render s d := by
  rw [ofItems_eq] at h
  cases htree : Tree.ofItems items with
  | error e =>
    rw [htree] at h
    cases h
  | ok t =>
    rw [htree] at h
    obtain rfl : t.arena = a := Except.ok.inj h
    have hdepth := Tree.depth_le_of_ofItems htree
    exact ⟨Tree.arena_isPostOrder hdepth, t, rfl, rfl, fun s beyond d =>
      t.render_arena s beyond (Tree.levels_le hdepth) d⟩

/-- A chain with a block in its first branch, and text behind it. -/
theorem Arena.ofItems_postOrder_chain :
    let items : List (Except Error Token) := [.ok ⟨.ifThen "a", ⟨0, 1, 1⟩⟩,
      .ok ⟨.beginBlock, ⟨8, 1, 9⟩⟩, .ok ⟨.bind "x" false, ⟨17, 1, 18⟩⟩,
      .ok ⟨.endBlock, ⟨19, 1, 20⟩⟩, .ok ⟨.otherwise, ⟨26, 1, 27⟩⟩, .ok ⟨.endIf, ⟨34, 1, 35⟩⟩,
      .ok ⟨.text ";", ⟨41, 1, 42⟩⟩]
    let a : Arena := ⟨[.bind "x" false, .block [0], .sequence [1], .sequence [],
      .chain [⟨"a", 2, ⟨0, 1, 1⟩⟩] (some ⟨3, ⟨26, 1, 27⟩⟩), .text ";", .sequence [4, 5]], 6⟩
    ofItems items = .ok a ∧ a.IsPostOrder ∧ a.crossings [6, 4, 2, 1, 0] = 2 := by
  intro items a
  have hbuilt : ofItems items = .ok a := by decide
  exact ⟨hbuilt, (ofItems_postOrder hbuilt).1, by decide⟩

end TwoWaySql
