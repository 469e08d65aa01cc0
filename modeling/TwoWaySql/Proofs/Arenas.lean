import TwoWaySql.Proofs.Validation
import TwoWaySql.Tree.Arena

/-!
# Arenas of rows of tokens

A tree and an arena are built from the same tokens side by side. This file

1. shows how the listing of a sequence grows by a node, and what a chain that ends is listed as
   (`Node.listing_closeChain`);
2. numbers a tree under construction (`Tree.State.numbered`): what is complete is listed, and what
   is open names it;
3. shows that a token leads from a numbered tree to a numbered tree, or is refused for the same
   reason (`Tree.State.push_numbered`), and so does a row of tokens (`Tree.State.pushAll_numbered`);
4. concludes that the arena of a row of tokens is the listing of its tree (`Arena.ofItems_eq`).
-/

namespace TwoWaySql

/-! ## Listings of sequences -/

theorem Node.listingAll_append (start : NodeId) (nodes more : List Node) :
    Node.listingAll start (nodes ++ more) =
      Node.listingAll start nodes ++ Node.listingAll (start + Node.countAll nodes) more := by
  induction nodes generalizing start with
  | nil => simp [Node.listingAll, Node.countAll]
  | cons node rest ih => simp [Node.listingAll, Node.countAll, ih, Nat.add_assoc]

theorem Node.ids_append (start : NodeId) (nodes more : List Node) :
    Node.ids start (nodes ++ more) =
      Node.ids start nodes ++ Node.ids (start + Node.countAll nodes) more := by
  induction nodes generalizing start with
  | nil => simp [Node.ids, Node.countAll]
  | cons node rest ih => simp [Node.ids, Node.countAll, ih, Nat.add_assoc]

/-- The body of a branch or of the whole template, behind the nodes below it. -/
def Node.listingBody (start : NodeId) (body : List Node) : List ListedNode :=
  Node.listingAll start body ++ [.sequence (Node.ids start body)]

theorem Node.length_listingBody (start : NodeId) (body : List Node) :
    (Node.listingBody start body).length = Node.countAll body + 1 := by
  rw [listingBody, List.length_append, length_listingAll, List.length_singleton]

namespace Tree

open State (closeChain)

/-- The bodies of complete branches, given latest first. -/
def closedListing (start : NodeId) : List ClosedBranch → List ListedNode
  | [] => []
  | latest :: earlier =>
    let front := closedListing start earlier
    front ++ Node.listingBody (start + front.length) latest.body

/-- Complete branches, given latest first, with the numbers of their bodies. -/
def closedBranches (start : NodeId) : List ClosedBranch → List ListedBranch
  | [] => []
  | latest :: earlier =>
    let next := start + (closedListing start earlier).length
    closedBranches start earlier ++
      [⟨latest.condition, next + Node.countAll latest.body, latest.position⟩]

/-- A chain that ends is listed behind the bodies of its branches. -/
theorem listing_closeChain (start : NodeId) (latest : ClosedBranch) (earlier : List ClosedBranch)
    (rest : Chain) {closed : List ListedNode}
    (hclosed : closedListing start (latest :: earlier) = closed) :
    (closeChain latest earlier rest).listing start =
      closed ++ rest.listing (start + closed.length) ++
        [.chain (closedBranches start (latest :: earlier) ++
            rest.listedBranches (start + closed.length))
          (rest.listedElse? (start + closed.length))] := by
  subst hclosed
  -- closing moves the latest branch into `rest`, so the induction is over the earlier ones
  induction earlier generalizing latest rest with
  | nil =>
    simp [closeChain, Node.listing, closedListing, closedBranches, Node.listingBody,
      Node.length_listingAll, Nat.add_assoc]
  | cons before earlier ih =>
    have hclosed : closedListing start (latest :: before :: earlier) =
        closedListing start (before :: earlier) ++
          Node.listingBody (start + (closedListing start (before :: earlier)).length) latest.body :=
      rfl
    have hbranches : closedBranches start (latest :: before :: earlier) =
        closedBranches start (before :: earlier) ++
          [⟨latest.condition, start + (closedListing start (before :: earlier)).length +
            Node.countAll latest.body, latest.position⟩] := rfl
    rw [closeChain, ih, hclosed, hbranches]
    generalize closedListing start (before :: earlier) = closed
    have hnext : start + (closed ++ Node.listingBody (start + closed.length) latest.body).length =
        start + closed.length + Node.countAll latest.body + 1 := by
      simp only [List.length_append, Node.length_listingBody, Nat.add_assoc]
    rw [hnext, Chain.listing, Chain.listedBranches, Chain.listedElse?]
    simp only [Node.listingBody, List.append_assoc, List.singleton_append]

/-- The branch that opened a chain is the first one of its listing. -/
theorem head?_closedBranches (start : NodeId) (closed : List ClosedBranch) :
    (closedBranches start closed).head?.map ListedBranch.position =
      closed.getLast?.map ClosedBranch.position := by
  induction closed with
  | nil => rfl
  | cons latest earlier ih =>
    rw [closedBranches, List.head?_append, List.getLast?_cons]
    cases hearlier : earlier.getLast? with
    | none =>
      rw [List.getLast?_eq_none_iff.1 hearlier]
      rfl
    | some first =>
      rw [hearlier, Option.map_some, Option.map_eq_some_iff] at ih
      obtain ⟨branch, hbranch, hposition⟩ := ih
      rw [hbranch, Option.some_or, Option.map_some, Option.getD_some, hposition]
      rfl

/-! ## Numbered trees under construction -/

/-- What an open directive keeps, from the number `start` on. -/
def Frame.listing (start : NodeId) : Frame → List ListedNode
  | .branch earlier _ _ around =>
    Node.listingAll start around.reverse ++
      closedListing (start + Node.countAll around.reverse) earlier
  | .otherwise latest earlier _ around =>
    Node.listingAll start around.reverse ++
      closedListing (start + Node.countAll around.reverse) (latest :: earlier)
  | .block _ around => Node.listingAll start around.reverse

/-- An open directive that names what it keeps. -/
def Frame.numbered (start : NodeId) : Frame → Arena.Frame
  | .branch earlier condition position around =>
    .branch (closedBranches (start + Node.countAll around.reverse) earlier) (some condition)
      position (Node.ids start around.reverse)
  | .otherwise latest earlier position around =>
    .branch (closedBranches (start + Node.countAll around.reverse) (latest :: earlier)) none
      position (Node.ids start around.reverse)
  | .block position around => .block position (Node.ids start around.reverse)

/-- What the open directives keep. -/
def framesListing : List Frame → List ListedNode
  | [] => []
  | frame :: outer => framesListing outer ++ frame.listing (framesListing outer).length

def framesNumbered : List Frame → List Arena.Frame
  | [] => []
  | frame :: outer => frame.numbered (framesListing outer).length :: framesNumbered outer

theorem length_framesNumbered (frames : List Frame) :
    (framesNumbered frames).length = frames.length := by
  induction frames with
  | nil => rfl
  | cons frame outer ih => rw [framesNumbered, List.length_cons, ih, List.length_cons]

namespace State

/-- A tree under construction as an arena under construction. -/
def numbered (s : State) : Arena.State :=
  let front := framesListing s.frames
  ⟨front ++ Node.listingAll front.length s.nodes.reverse, Node.ids front.length s.nodes.reverse,
    framesNumbered s.frames⟩

theorem length_numbered (s : State) :
    s.numbered.nodes.length = (framesListing s.frames).length + Node.countAll s.nodes.reverse := by
  rw [numbered, List.length_append, Node.length_listingAll]

/-- A node that is complete comes behind the nodes below it, which are numbered first. -/
theorem numbered_append {s : State} {node : Node} {below : List ListedNode} {entry : ListedNode}
    (h : node.listing s.numbered.nodes.length = below ++ [entry]) :
    (s.append node).numbered =
      Arena.State.append { s.numbered with nodes := s.numbered.nodes ++ below } entry := by
  have hcount : node.count = below.length + 1 := by
    rw [← Node.length_listing s.numbered.nodes.length node, h, List.length_append,
      List.length_singleton]
  have hnumber (front back : Nat) :
      front + back + node.count - 1 = front + (back + below.length) := by omega
  rw [length_numbered] at h
  simp [numbered, append, Arena.State.append, Node.listingAll_append, Node.ids_append,
    Node.listingAll, Node.ids, h, hnumber, Node.length_listingAll]

theorem enter_numbered (s : State) (position : Position) {frame : List Node → Frame}
    {frame' : List NodeId → Arena.Frame}
    (hkeeps : ∀ start, (frame s.nodes).listing start = Node.listingAll start s.nodes.reverse)
    (hnames : ∀ start, (frame s.nodes).numbered start = frame' (Node.ids start s.nodes.reverse)) :
    s.numbered.enter position frame' = (s.enter position frame).map numbered := by
  rw [Arena.State.enter, enter, numbered, length_framesNumbered]
  split
  · rw [Except.map, numbered, framesListing, framesNumbered, hkeeps, hnames, List.reverse_nil,
      Node.listingAll, Node.ids, List.append_nil]
  · rfl

/-- The innermost sequence ends: it becomes a body behind what the open directives keep. -/
theorem numbered_body (s : State) :
    s.numbered.nodes ++ [.sequence s.numbered.parts] =
      framesListing s.frames ++
        Node.listingBody (framesListing s.frames).length s.nodes.reverse := by
  rw [numbered, Node.listingBody, List.append_assoc]

section

variable (nodes around : List Node) (earlier : List ClosedBranch) (before : String)
  (start : Position) (outer : List Frame)

/-- A branch with a condition ends: it is the latest one of the complete ones. -/
theorem numbered_branch :
    let s : State := ⟨nodes, .branch earlier before start around :: outer⟩
    let closed := ⟨before, start, nodes.reverse⟩ :: earlier
    let first := (framesListing outer).length + Node.countAll around.reverse
    s.numbered.nodes ++ [.sequence s.numbered.parts] =
        (State.numbered ⟨around, outer⟩).nodes ++ closedListing first closed ∧
      closedBranches first earlier ++ [⟨before, s.numbered.nodes.length, start⟩] =
        closedBranches first closed := by
  intro s closed first
  have hlength : (framesListing s.frames).length =
      first + (closedListing first earlier).length := by
    simp [s, first, framesListing, Frame.listing, Node.length_listingAll, Nat.add_assoc]
  constructor
  · rw [numbered_body, hlength]
    simp [s, closed, first, framesListing, Frame.listing, numbered, closedListing]
  · rw [length_numbered, hlength]
    rfl

end

theorem alternate_numbered (s : State) (position : Position) (directive : String)
    {condition : Option String} (frame : ClosedBranch → List ClosedBranch → List Node → Frame)
    (hkeeps : ∀ latest earlier around start, (frame latest earlier around).listing start =
      Node.listingAll start around.reverse ++
        closedListing (start + Node.countAll around.reverse) (latest :: earlier))
    (hnames : ∀ latest earlier around start, (frame latest earlier around).numbered start =
      .branch (closedBranches (start + Node.countAll around.reverse) (latest :: earlier)) condition
        position (Node.ids start around.reverse)) :
    s.numbered.alternate position directive condition =
      ((s.closeBranch position directive).map fun (latest, earlier, around, outer) =>
        ⟨[], frame latest earlier around :: outer⟩).map numbered := by
  obtain ⟨nodes, frames⟩ := s
  cases frames with
  | nil => rfl
  | cons innermost outer =>
    cases innermost with
    | branch earlier before start around =>
      obtain ⟨hnodes, hbranches⟩ := numbered_branch nodes around earlier before start outer
      refine congrArg Except.ok ?_
      show Arena.State.mk _ _ _ = numbered ⟨[], frame _ _ _ :: outer⟩
      rw [hnodes, hbranches]
      simp [numbered, framesListing, framesNumbered, hkeeps, hnames, Node.listingAll, Node.ids]
    | otherwise latest earlier start around => rfl
    | block start around => rfl

theorem endChain_numbered (nodes : List Node) (frames : List Frame) (position : Position) :
    (State.mk nodes frames).numbered.endChain position =
      ((State.mk nodes frames).push ⟨.endIf, position⟩).map numbered := by
  cases frames with
  | nil => rfl
  | cons innermost outer =>
    cases innermost with
    | branch earlier before start around =>
      obtain ⟨hnodes, hbranches⟩ := numbered_branch nodes around earlier before start outer
      have hchain := listing_closeChain (numbered ⟨around, outer⟩).nodes.length
        ⟨before, start, nodes.reverse⟩ earlier .done rfl
      rw [Chain.listing, Chain.listedBranches, Chain.listedElse?, List.append_nil,
        List.append_nil] at hchain
      have happend := numbered_append hchain
      rw [length_numbered, ← hnodes, ← hbranches] at happend
      exact congrArg Except.ok happend.symm
    | otherwise latest earlier start around =>
      have hfront : framesListing (.otherwise latest earlier start around :: outer) =
          (numbered ⟨around, outer⟩).nodes ++
            closedListing (numbered ⟨around, outer⟩).nodes.length (latest :: earlier) := by
        rw [length_numbered]
        exact (List.append_assoc ..).symm
      have hbody := numbered_body ⟨nodes, .otherwise latest earlier start around :: outer⟩
      have hlength := length_numbered ⟨nodes, .otherwise latest earlier start around :: outer⟩
      rw [hfront, List.length_append] at hbody hlength
      have hchain := listing_closeChain (numbered ⟨around, outer⟩).nodes.length latest earlier
        (.otherwise start nodes.reverse) rfl
      rw [Chain.listedBranches, Chain.listedElse?, List.append_nil] at hchain
      have happend := numbered_append hchain
      rw [← List.append_assoc] at happend
      refine congrArg Except.ok (Eq.trans ?_ happend.symm)
      rw [hbody, hlength, length_numbered ⟨around, outer⟩]
      rfl
    | block start around => rfl

theorem endBlock_numbered (nodes : List Node) (frames : List Frame) (position : Position) :
    (State.mk nodes frames).numbered.endBlock position =
      ((State.mk nodes frames).push ⟨.endBlock, position⟩).map numbered := by
  cases frames with
  | nil => rfl
  | cons innermost outer =>
    cases innermost with
    | branch earlier before start around => rfl
    | otherwise latest earlier start around => rfl
    | block start around =>
      have hblock : (Node.block nodes.reverse).listing (numbered ⟨around, outer⟩).nodes.length =
          Node.listingAll (numbered ⟨around, outer⟩).nodes.length nodes.reverse ++
            [.block (Node.ids (numbered ⟨around, outer⟩).nodes.length nodes.reverse)] := rfl
      exact congrArg Except.ok (numbered_append hblock).symm

/-- A token leads from a numbered tree to a numbered tree, or is refused for the same reason. -/
theorem push_numbered (s : State) (token : Token) :
    s.numbered.push token = (s.push token).map numbered := by
  obtain ⟨kind, position⟩ := token
  have hleaf {node : Node} {entry : ListedNode} (h : ∀ start, node.listing start = [entry]) :
      Except.ok (s.numbered.append entry) =
        (Except.ok (s.append node) : Except Error State).map numbered := by
    have hlisting : node.listing s.numbered.nodes.length = [] ++ [entry] := h _
    have happend := numbered_append hlisting
    rw [List.append_nil] at happend
    exact congrArg Except.ok happend.symm
  cases kind with
  | text content => exact hleaf fun _ => rfl
  | bind name paren => exact hleaf fun _ => rfl
  | embedded name quoted => exact hleaf fun _ => rfl
  | ifThen condition =>
    refine s.enter_numbered position (fun start => ?_) fun start => rfl
    exact List.append_nil _
  | elseIf condition =>
    exact s.alternate_numbered position "ELIF"
      (fun latest earlier => .branch (latest :: earlier) condition position)
      (fun _ _ _ _ => rfl) fun _ _ _ _ => rfl
  | otherwise =>
    exact s.alternate_numbered position "ELSE"
      (fun latest earlier => .otherwise latest earlier position)
      (fun _ _ _ _ => rfl) fun _ _ _ _ => rfl
  | endIf => exact endChain_numbered s.nodes s.frames position
  | beginBlock => exact s.enter_numbered position (fun start => rfl) fun start => rfl
  | endBlock => exact endBlock_numbered s.nodes s.frames position

theorem pushAll_numbered (s : State) (items : List (Except Error Token)) :
    s.numbered.pushAll items = (s.pushAll items).map numbered := by
  induction items generalizing s with
  | nil => rfl
  | cons item rest ih =>
    cases item with
    | error e => rfl
    | ok token =>
      rw [Arena.State.pushAll, pushAll, push_numbered]
      cases s.push token with
      | error e => rfl
      | ok next => exact ih next

theorem finish_numbered (s : State) : s.numbered.finish = s.finish.map Tree.arena := by
  obtain ⟨nodes, frames⟩ := s
  have hchain (first : NodeId) (closed : List ClosedBranch) (start : Position) :
      ((closedBranches first closed).head?.map ListedBranch.position).getD start =
        (closed.getLast?.map ClosedBranch.position).getD start := by
    rw [head?_closedBranches]
  cases frames with
  | nil =>
    have hlength := length_numbered ⟨nodes, []⟩
    rw [show framesListing [] = [] from rfl, List.length_nil, Nat.zero_add] at hlength
    refine congrArg Except.ok ?_
    rw [arena, root, listing, hlength]
    rfl
  | cons innermost outer =>
    cases innermost with
    | branch earlier before start around =>
      simp only [Arena.State.finish, numbered, framesNumbered, Frame.numbered, finish, Except.map,
        hchain]
    | otherwise latest earlier start around =>
      simp only [Arena.State.finish, numbered, framesNumbered, Frame.numbered, finish, Except.map,
        hchain, List.getLast?_cons]
      cases earlier.getLast? <;> rfl
    | block start around => rfl

end State

end Tree

/-- The arena of a row of items is the listing of its tree, and where there is no tree there is no
arena, for the same reason. -/
theorem Arena.ofItems_eq (items : List (Except Error Token)) :
    ofItems items = (Tree.ofItems items).map Tree.arena := by
  rw [ofItems, Tree.ofItems]
  have hrow := Tree.State.empty.pushAll_numbered items
  rw [show State.empty = Tree.State.empty.numbered from rfl, hrow]
  cases Tree.State.empty.pushAll items with
  | error e => rfl
  | ok s => exact s.finish_numbered

end TwoWaySql
