import Mathlib.Data.List.Nodup
import TwoWaySql.Proofs.Rendering
import TwoWaySql.Tree.Listing

/-!
# What coverage records

A run records for each chain that it reaches which of its branches were looked at and which one was
entered. This file

1. lists the chains of a tree with the bodies that they stand in (`Tree.chains`), and shows that
   they are the chains of the listed tree (`Tree.chains_eq`);
2. shows that the numbers of branches differ (`Tree.spread_branches`), and that the chains share
   them out (`Tree.branches_chains`);
3. shows that a part of a tree records branches of its own, each at most once
   (`Node.states_sublist`);
4. says what a chain that was reached and one that was not have recorded
   (`ChainBodies.Recorded`), and follows the states of a meaning through the tree
   (`Node.recorded`): each part of a tree has its numbers to itself, so what a part records cannot
   be changed by another one;
5. concludes that the coverage of a run is exact (`Renderer.coverage_exact`).
-/

namespace TwoWaySql

/-! ## The chains of a tree -/

/-- A chain as coverage sees it: the numbers of its bodies. -/
structure ChainBodies where
  /-- The bodies of the branches in which the chain stands, innermost first. -/
  around : List NodeId
  /-- The bodies of the branches with a condition, in order. -/
  conditional : List NodeId
  /-- The body of the last branch, if that one has no condition. -/
  last : Option NodeId
  deriving DecidableEq, Repr

/-- The bodies of all branches of a chain. -/
def ChainBodies.all (c : ChainBodies) : List NodeId := c.conditional ++ c.last.toList

/-- The bodies of the branches with a condition that follow a branch. -/
def Chain.conditional (start : NodeId) (chain : Chain) : List NodeId :=
  (chain.listedBranches start).map ListedBranch.body

/-- The body of the last branch of what follows a branch, if that one has no condition. -/
def Chain.last (start : NodeId) (chain : Chain) : Option NodeId :=
  (chain.listedElse? start).map ListedElse.body

mutual

/-- The chains of a node that stands in the given bodies, each behind those in its own bodies. -/
def Node.chains (around : List NodeId) (start : NodeId) : Node → List ChainBodies
  | .text _ => []
  | .bind _ _ => []
  | .embedded _ _ => []
  | .chain _ _ body rest =>
    let id := start + Node.countAll body
    Node.chainsAll (id :: around) start body ++ rest.chains around (id + 1) ++
      [⟨around, id :: rest.conditional (id + 1), rest.last (id + 1)⟩]
  | .block body => Node.chainsAll around start body

/-- The chains in the further branches of a chain. -/
def Chain.chains (around : List NodeId) (start : NodeId) : Chain → List ChainBodies
  | .done => []
  | .elseIf _ _ body rest =>
    let id := start + Node.countAll body
    Node.chainsAll (id :: around) start body ++ rest.chains around (id + 1)
  | .otherwise _ body => Node.chainsAll ((start + Node.countAll body) :: around) start body

def Node.chainsAll (around : List NodeId) (start : NodeId) : List Node → List ChainBodies
  | [] => []
  | node :: rest => node.chains around start ++ Node.chainsAll around (start + node.count) rest

end

def Tree.chains (t : Tree) : List ChainBodies := Node.chainsAll [] 0 t.nodes

/-- The bodies of a listed chain. -/
def ListedNode.bodies? : ListedNode → Option (List NodeId × Option NodeId)
  | .chain branches otherwise =>
    some (branches.map ListedBranch.body, otherwise.map ListedElse.body)
  | _ => none

mutual

theorem Node.chains_eq (around : List NodeId) (start : NodeId) :
    ∀ node : Node, (node.chains around start).map (fun c => (c.conditional, c.last)) =
      (node.listing start).filterMap ListedNode.bodies?
  | .text _ | .bind _ _ | .embedded _ _ => rfl
  | .chain condition position body rest => by
    simp [Node.chains, Node.listing, Node.chainsAll_eq, Chain.chains_eq, List.filterMap_cons,
      ListedNode.bodies?, Chain.conditional, Chain.last]
  | .block body => by
    simp [Node.chains, Node.listing, Node.chainsAll_eq, List.filterMap_cons, ListedNode.bodies?]

theorem Chain.chains_eq (around : List NodeId) (start : NodeId) :
    ∀ chain : Chain, (chain.chains around start).map (fun c => (c.conditional, c.last)) =
      (chain.listing start).filterMap ListedNode.bodies?
  | .done => rfl
  | .elseIf condition position body rest => by
    simp [Chain.chains, Chain.listing, Node.chainsAll_eq, Chain.chains_eq, List.filterMap_cons,
      ListedNode.bodies?]
  | .otherwise position body => by
    simp [Chain.chains, Chain.listing, Node.chainsAll_eq, List.filterMap_cons,
      ListedNode.bodies?]

theorem Node.chainsAll_eq (around : List NodeId) (start : NodeId) :
    ∀ nodes : List Node,
      (Node.chainsAll around start nodes).map (fun c => (c.conditional, c.last)) =
        (Node.listingAll start nodes).filterMap ListedNode.bodies?
  | [] => rfl
  | node :: rest => by
    simp [Node.chainsAll, Node.listingAll, Node.chains_eq, Node.chainsAll_eq]

end

/-- The chains of a tree are those of the listed tree. -/
theorem Tree.chains_eq (t : Tree) :
    t.chains.map (fun c => (c.conditional, c.last)) = t.listing.filterMap ListedNode.bodies? := by
  simp [Tree.chains, Tree.listing, Node.chainsAll_eq, ListedNode.bodies?]

/-! ## The numbers of branches -/

/-- Different numbers from `low` up to and without `high`. -/
def Spread (low high : Nat) (ids : List Nat) : Prop :=
  ids.Nodup ∧ ∀ id ∈ ids, low ≤ id ∧ id < high

namespace Spread

theorem nil (low high : Nat) : Spread low high [] := ⟨List.nodup_nil, nofun⟩

theorem mono {low high low' high' : Nat} {ids : List Nat} (h : Spread low high ids)
    (hlow : low' ≤ low) (hhigh : high ≤ high') : Spread low' high' ids := by
  refine ⟨h.1, fun id hid => ?_⟩
  have hbounds := h.2 id hid
  omega

theorem append {low middle high : Nat} {ids more : List Nat} (h : Spread low middle ids)
    (hmore : Spread middle high more) (hlow : low ≤ middle) (hhigh : middle ≤ high) :
    Spread low high (ids ++ more) := by
  refine ⟨List.nodup_append.2 ⟨h.1, hmore.1, fun a ha b hb => ?_⟩, fun id hid => ?_⟩
  · have hbefore := h.2 a ha
    have hbehind := hmore.2 b hb
    omega
  · rcases List.mem_append.1 hid with hid | hid
    · have hbounds := h.2 id hid
      omega
    · have hbounds := hmore.2 id hid
      omega

/-- A branch: the number of its body stands between those in the body and those of what follows. -/
theorem branch {low high id : Nat} {inner behind : List Nat} (h : Spread low id inner)
    (hbehind : Spread (id + 1) high behind) (hlow : low ≤ id) (hhigh : id + 1 ≤ high) :
    Spread low high (id :: (inner ++ behind)) := by
  refine ⟨List.nodup_cons.2 ⟨fun hid => ?_, ?_⟩, fun other hother => ?_⟩
  · rcases List.mem_append.1 hid with hid | hid
    · exact absurd (h.2 id hid).2 (Nat.lt_irrefl id)
    · exact absurd (hbehind.2 id hid).1 (Nat.not_succ_le_self id)
  · exact (append (h.mono (Nat.le_refl low) (Nat.le_succ id)) hbehind (by omega) hhigh).1
  · rcases List.mem_cons.1 hother with rfl | hother
    · omega
    · rcases List.mem_append.1 hother with hother | hother
      · have hbounds := h.2 other hother
        omega
      · have hbounds := hbehind.2 other hother
        omega

end Spread

mutual

/-- The branches of a node have different numbers among those of the node. -/
theorem Node.spread_branches (start : Nat) :
    ∀ node : Node, Spread start (start + node.count) ((node.branches start).map Branch.id)
  | .text _ | .bind _ _ | .embedded _ _ => .nil _ _
  | .chain condition position body rest => by
    rw [Node.branches, List.map_cons, List.map_append, Node.count]
    have hbody := Node.spread_branchesAll start body
    have hrest := (Chain.spread_branches (start + Node.countAll body + 1) rest).mono
      (Nat.le_refl _) (Nat.le_succ _)
    exact (hbody.branch hrest (by omega) (by omega)).mono (Nat.le_refl _) (by omega)
  | .block body => by
    rw [Node.branches, Node.count]
    exact (Node.spread_branchesAll start body).mono (Nat.le_refl _) (by omega)

theorem Chain.spread_branches (start : Nat) :
    ∀ chain : Chain, Spread start (start + chain.count) ((chain.branches start).map Branch.id)
  | .done => .nil _ _
  | .elseIf condition position body rest => by
    rw [Chain.branches, List.map_cons, List.map_append, Chain.count]
    have hbody := Node.spread_branchesAll start body
    have hrest := Chain.spread_branches (start + Node.countAll body + 1) rest
    exact (hbody.branch hrest (by omega) (by omega)).mono (Nat.le_refl _) (by omega)
  | .otherwise position body => by
    rw [Chain.branches, List.map_cons, Chain.count]
    have hbody := Node.spread_branchesAll start body
    have hnone := Spread.nil (start + Node.countAll body + 1) (start + Node.countAll body + 1)
    have hbranch := hbody.branch hnone (by omega) (by omega)
    rwa [List.append_nil] at hbranch

theorem Node.spread_branchesAll (start : Nat) :
    ∀ nodes : List Node, Spread start (start + Node.countAll nodes)
      ((Node.branchesAll start nodes).map Branch.id)
  | [] => .nil _ _
  | node :: rest => by
    rw [Node.branchesAll, List.map_append, Node.countAll]
    have hrest := Node.spread_branchesAll (start + node.count) rest
    rw [Nat.add_assoc] at hrest
    exact (Node.spread_branches start node).append hrest (by omega) (by omega)

end

/-- The branches of a tree have different numbers. -/
theorem Tree.spread_branches (t : Tree) : Spread 0 t.count (t.branches.map Branch.id) :=
  (Node.spread_branchesAll 0 t.nodes).mono (Nat.le_refl 0) (by rw [Tree.count]; omega)

/-- A branch in front of those in its body and of what follows, with the branches of further chains
kept apart from those of its own. -/
theorem branch_perm {id : Nat} {inner behind inner' behind' own : List Nat}
    (hinner : inner.Perm inner') (hbehind : behind.Perm (behind' ++ own)) :
    (id :: (inner ++ behind)).Perm (inner' ++ behind' ++ id :: own) := by
  have hrow : (inner ++ behind).Perm (inner' ++ behind' ++ own) := by
    rw [List.append_assoc]
    exact hinner.append hbehind
  exact (hrow.cons id).trans List.perm_middle.symm

mutual

/-- The chains of a node share its branches out. -/
theorem Node.branches_chains (around : List NodeId) (start : NodeId) :
    ∀ node : Node, ((node.branches start).map Branch.id).Perm
      ((node.chains around start).flatMap ChainBodies.all)
  | .text _ | .bind _ _ | .embedded _ _ => .refl _
  | .chain condition position body rest => by
    rw [Node.branches, Node.chains, List.map_cons, List.map_append, List.flatMap_append,
      List.flatMap_append, List.flatMap_singleton]
    exact branch_perm (Node.branches_chainsAll _ start body) (Chain.branches_chains around _ rest)
  | .block body => by
    rw [Node.branches, Node.chains]
    exact Node.branches_chainsAll around start body

/-- The further branches of a chain are its own and those of the chains in them. -/
theorem Chain.branches_chains (around : List NodeId) (start : NodeId) :
    ∀ chain : Chain, ((chain.branches start).map Branch.id).Perm
      ((chain.chains around start).flatMap ChainBodies.all ++
        (chain.conditional start ++ (chain.last start).toList))
  | .done => .refl _
  | .elseIf condition position body rest => by
    rw [Chain.branches, Chain.chains, List.map_cons, List.map_append, List.flatMap_append]
    exact branch_perm (Node.branches_chainsAll _ start body) (Chain.branches_chains around _ rest)
  | .otherwise position body => by
    rw [Chain.branches, Chain.chains, List.map_cons]
    have hbody := Node.branches_chainsAll ((start + Node.countAll body) :: around) start body
    exact (hbody.cons _).trans (List.perm_append_singleton _ _).symm

theorem Node.branches_chainsAll (around : List NodeId) (start : NodeId) :
    ∀ nodes : List Node, ((Node.branchesAll start nodes).map Branch.id).Perm
      ((Node.chainsAll around start nodes).flatMap ChainBodies.all)
  | [] => .refl _
  | node :: rest => by
    rw [Node.branchesAll, Node.chainsAll, List.map_append, List.flatMap_append]
    exact (Node.branches_chains around start node).append
      (Node.branches_chainsAll around (start + node.count) rest)

end

mutual

/-- A chain in a node stands in all bodies in which the node stands. -/
theorem Node.around_chains {around : List NodeId} {start : NodeId} {c : ChainBodies} :
    ∀ node : Node, c ∈ node.chains around start → around ⊆ c.around
  | .text _, h | .bind _ _, h | .embedded _ _, h => nomatch h
  | .chain condition position body rest, h => by
    rw [Node.chains, List.mem_append, List.mem_append, List.mem_singleton] at h
    rcases h with (h | h) | rfl
    · exact List.Subset.trans (List.subset_cons_self _ _) (Node.around_chainsAll body h)
    · exact (Chain.around_chains rest h).1
    · exact List.Subset.refl _
  | .block body, h => Node.around_chainsAll body h

/-- A chain in a further branch of a chain stands in the body of that branch, too. -/
theorem Chain.around_chains {around : List NodeId} {start : Nat} {c : ChainBodies} :
    ∀ chain : Chain, c ∈ chain.chains around start →
      around ⊆ c.around ∧ ∃ id : Nat, id ∈ c.around ∧ start ≤ id ∧ id < start + chain.count
  | .done, h => nomatch h
  | .elseIf condition position body rest, h => by
    rw [Chain.chains, List.mem_append] at h
    rw [Chain.count]
    rcases h with h | h
    · have hbody := Node.around_chainsAll body h
      have hid : (start + Node.countAll body : Nat) ∈ c.around := hbody List.mem_cons_self
      exact ⟨List.Subset.trans (List.subset_cons_self _ _) hbody, _, hid, by omega, by omega⟩
    · obtain ⟨houter, id, hid, hlow, hhigh⟩ := Chain.around_chains rest h
      have hlow : start + Node.countAll body + 1 ≤ id := hlow
      exact ⟨houter, id, hid, by omega, by omega⟩
  | .otherwise position body, h => by
    rw [Chain.count]
    have hbody := Node.around_chainsAll body h
    have hid : (start + Node.countAll body : Nat) ∈ c.around := hbody List.mem_cons_self
    exact ⟨List.Subset.trans (List.subset_cons_self _ _) hbody, _, hid, by omega, by omega⟩

theorem Node.around_chainsAll {around : List NodeId} {start : NodeId} {c : ChainBodies} :
    ∀ nodes : List Node, c ∈ Node.chainsAll around start nodes → around ⊆ c.around
  | [], h => nomatch h
  | node :: rest, h => by
    rw [Node.chainsAll, List.mem_append] at h
    rcases h with h | h
    · exact Node.around_chains node h
    · exact Node.around_chainsAll rest h

end

/-! ## What is recorded -/

/-- The state that a row of recorded states leaves a branch in. -/
def stateIn (states : List (NodeId × BranchState)) (id : NodeId) : Option BranchState :=
  if (id, .passed) ∈ states then some .passed
  else if (id, .failed) ∈ states then some .failed
  else none

theorem stateIn_append_left {states more : List (NodeId × BranchState)} {id : NodeId}
    (h : ∀ e ∈ more, e.1 ≠ id) : stateIn (states ++ more) id = stateIn states id := by
  have hmore (state : BranchState) : (id, state) ∉ more := fun he => h _ he rfl
  simp [stateIn, hmore]

theorem stateIn_append_right {states more : List (NodeId × BranchState)} {id : NodeId}
    (h : ∀ e ∈ states, e.1 ≠ id) : stateIn (states ++ more) id = stateIn more id := by
  have hstates (state : BranchState) : (id, state) ∉ states := fun he => h _ he rfl
  simp [stateIn, hstates]

theorem stateIn_eq_none {states : List (NodeId × BranchState)} {id : NodeId}
    (h : ∀ e ∈ states, e.1 ≠ id) : stateIn states id = none := by
  have hstates (state : BranchState) : (id, state) ∉ states := fun he => h _ he rfl
  simp [stateIn, hstates]

theorem mem_of_stateIn {states : List (NodeId × BranchState)} {id : NodeId} {state : BranchState}
    (h : stateIn states id = some state) : (id, state) ∈ states := by
  unfold stateIn at h
  split at h
  · next hpassed => exact Option.some.inj h ▸ hpassed
  · split at h
    · next hfailed => exact Option.some.inj h ▸ hfailed
    · cases h

theorem stateIn_singleton (id : NodeId) (state : BranchState) :
    stateIn [(id, state)] id = some state := by
  cases state <;> simp [stateIn]

/-- Recording states one by one leaves each branch in the strongest of its states. -/
theorem Coverage.state?_foldl (states : List (NodeId × BranchState)) (c : Coverage)
    (before : List (NodeId × BranchState)) (h : ∀ id, c.state? id = stateIn before id)
    (id : NodeId) :
    (states.foldl (fun c e => c.record e.1 e.2) c).state? id = stateIn (before ++ states) id := by
  induction states generalizing c before with
  | nil => rw [List.foldl_nil, List.append_nil, h]
  | cons e rest ih =>
    rw [List.foldl_cons, List.append_cons]
    refine ih _ (before ++ [e]) fun other => ?_
    obtain ⟨branch, state⟩ := e
    rw [state?_record, h, h]
    by_cases hb : other = branch
    · subst hb
      cases state <;> by_cases hp : (other, BranchState.passed) ∈ before <;>
        by_cases hf : (other, BranchState.failed) ∈ before <;>
        simp [stateIn, BranchState.join, hp, hf]
    · rw [if_neg hb, stateIn_append_left]
      intro e he
      rw [List.mem_singleton.1 he]
      exact Ne.symm hb

theorem Meaning.state?_coverage (m : Meaning) (id : NodeId) :
    m.coverage.state? id = stateIn m.states id :=
  Coverage.state?_foldl m.states .empty [] (fun _ => rfl) id

/-- A branch records that it was entered, with what its body records, or that it was passed over,
with what follows it. -/
theorem Surroundings.choose_branch_ok {s : Surroundings} {condition : String} {id : NodeId}
    {inner behind : Except Error Meaning} {m : Meaning}
    (h : s.choose condition (inner.map (.taken id)) (behind.map (.passedOver id)) = .ok m) :
    (∃ x, inner = .ok x ∧ m.states = (id, .passed) :: x.states) ∨
      ∃ x, behind = .ok x ∧ m.states = (id, .failed) :: x.states := by
  rcases Surroundings.choose_ok h with h | h
  · obtain ⟨x, hx, rfl⟩ := Meaning.map_ok h
    exact .inl ⟨x, hx, rfl⟩
  · obtain ⟨x, hx, rfl⟩ := Meaning.map_ok h
    exact .inr ⟨x, hx, rfl⟩

theorem states_sublist_branch {s : Surroundings} {condition : String} {id : NodeId}
    {inner behind : Except Error Meaning} {m : Meaning} {ids more : List NodeId}
    (h : s.choose condition (inner.map (.taken id)) (behind.map (.passedOver id)) = .ok m)
    (hinner : ∀ x, inner = .ok x → (x.states.map Prod.fst).Sublist ids)
    (hbehind : ∀ x, behind = .ok x → (x.states.map Prod.fst).Sublist more) :
    (m.states.map Prod.fst).Sublist (id :: (ids ++ more)) := by
  rcases Surroundings.choose_branch_ok h with ⟨x, hx, hm⟩ | ⟨x, hx, hm⟩
  · rw [hm, List.map_cons]
    exact ((hinner x hx).trans (List.sublist_append_left ids more)).cons_cons id
  · rw [hm, List.map_cons]
    exact ((hbehind x hx).trans (List.sublist_append_right ids more)).cons_cons id

mutual

/-- The branches that a node records stand in the order of its branches, each at most once. -/
theorem Node.states_sublist {s : Surroundings} {optional : Bool} {start : NodeId} {m : Meaning} :
    ∀ node : Node, node.meaning s optional start = .ok m →
      (m.states.map Prod.fst).Sublist ((node.branches start).map Branch.id)
  | .text content, h => by
    rw [← Except.ok.inj h]
    exact List.nil_sublist _
  | .bind name paren, h => by
    rcases Surroundings.resolved_ok h with ⟨v, -, rfl⟩ | ⟨-, -, rfl⟩ <;> exact List.nil_sublist _
  | .embedded name quoted, h => by
    rcases Surroundings.resolved_ok h with ⟨v, -, rfl⟩ | ⟨-, -, rfl⟩ <;> exact List.nil_sublist _
  | .chain condition position body rest, h => by
    rw [Node.meaning] at h
    rw [Node.branches, List.map_cons, List.map_append]
    exact states_sublist_branch h (fun x hx => Node.states_sublistAll body hx)
      (fun x hx => Chain.states_sublist rest hx)
  | .block body, h => by
    rw [Node.meaning] at h
    obtain ⟨inner, hinner, hm⟩ := Meaning.block_ok h
    have hbody := Node.states_sublistAll body hinner
    rcases hm with rfl | rfl
    · exact hbody
    · exact hbody

theorem Chain.states_sublist {s : Surroundings} {optional : Bool} {start : NodeId} {m : Meaning} :
    ∀ chain : Chain, chain.meaning s optional start = .ok m →
      (m.states.map Prod.fst).Sublist ((chain.branches start).map Branch.id)
  | .done, h => by
    rw [← Except.ok.inj h]
    exact List.nil_sublist _
  | .elseIf condition position body rest, h => by
    rw [Chain.meaning] at h
    rw [Chain.branches, List.map_cons, List.map_append]
    exact states_sublist_branch h (fun x hx => Node.states_sublistAll body hx)
      (fun x hx => Chain.states_sublist rest hx)
  | .otherwise position body, h => by
    rw [Chain.meaning] at h
    obtain ⟨inner, hinner, rfl⟩ := Meaning.map_ok h
    exact (Node.states_sublistAll body hinner).cons_cons _

theorem Node.states_sublistAll {s : Surroundings} {optional : Bool} {start : NodeId}
    {m : Meaning} :
    ∀ nodes : List Node, Node.meaningAll s optional start nodes = .ok m →
      (m.states.map Prod.fst).Sublist ((Node.branchesAll start nodes).map Branch.id)
  | [], h => by
    rw [← Except.ok.inj h]
    exact List.nil_sublist _
  | node :: rest, h => by
    rw [Node.meaningAll] at h
    obtain ⟨x, y, hx, hy, rfl⟩ := Meaning.inRow_ok h
    rw [Node.branchesAll, List.map_append, Meaning.append, List.map_append]
    exact (Node.states_sublist node hx).append (Node.states_sublistAll rest hy)

end

/-- A row of states is about branches with the given numbers. -/
def StatesOf (ids : List NodeId) (states : List (NodeId × BranchState)) : Prop :=
  ∀ e ∈ states, e.1 ∈ ids

theorem StatesOf.of_sublist {ids : List NodeId} {states : List (NodeId × BranchState)}
    (h : (states.map Prod.fst).Sublist ids) : StatesOf ids states :=
  fun _ he => h.subset (List.mem_map_of_mem he)

section

variable {s : Surroundings} {optional : Bool} {start : NodeId} {m : Meaning}

/-- A node records states of its own branches only. -/
theorem Node.statesOf (node : Node) (h : node.meaning s optional start = .ok m) :
    StatesOf ((node.branches start).map Branch.id) m.states :=
  .of_sublist (Node.states_sublist node h)

theorem Chain.statesOf (chain : Chain) (h : chain.meaning s optional start = .ok m) :
    StatesOf ((chain.branches start).map Branch.id) m.states :=
  .of_sublist (Chain.states_sublist chain h)

theorem Node.statesOfAll (nodes : List Node)
    (h : Node.meaningAll s optional start nodes = .ok m) :
    StatesOf ((Node.branchesAll start nodes).map Branch.id) m.states :=
  .of_sublist (Node.states_sublistAll nodes h)

end

/-! ## What a chain has recorded -/

section

variable (state? : NodeId → Option BranchState)

/-- The branches of a chain that was reached: those in front of the first one whose condition holds
were passed over, that one was entered and nothing is known of the others; or all were passed over,
and the last one without a condition was entered, if there is one. -/
def Resolved (conditional : List NodeId) (last : Option NodeId) : Prop :=
  (∃ before taken after, conditional = before ++ taken :: after ∧
    (∀ id ∈ before, state? id = some .failed) ∧ state? taken = some .passed ∧
    (∀ id ∈ after, state? id = none) ∧ ∀ id ∈ last, state? id = none) ∨
  ((∀ id ∈ conditional, state? id = some .failed) ∧ ∀ id ∈ last, state? id = some .passed)

/-- What is recorded of a chain: nothing if it stands in a body that was not entered. -/
def ChainBodies.Recorded (c : ChainBodies) : Prop :=
  ((∃ id ∈ c.around, state? id ≠ some .passed) ∧ ∀ id ∈ c.all, state? id = none) ∨
  ((∀ id ∈ c.around, state? id = some .passed) ∧ Resolved state? c.conditional c.last)

/-- Between two numbers the states are those of a row. -/
def Agrees (states : List (NodeId × BranchState)) (low high : Nat) : Prop :=
  ∀ id : Nat, low ≤ id → id < high → state? id = stateIn states id

end

/-- Nothing is known of the branches between two numbers. -/
abbrev Untouched (state? : NodeId → Option BranchState) (low high : Nat) : Prop :=
  Agrees state? [] low high

namespace Agrees

variable {state? : NodeId → Option BranchState} {states : List (NodeId × BranchState)}
  {ids : List NodeId} {low id high : Nat}

theorem mono {low' high' : Nat} (h : Agrees state? states low high) (hlow : low ≤ low')
    (hhigh : high' ≤ high) : Agrees state? states low' high' :=
  fun other h1 h2 => h other (Nat.le_trans hlow h1) (Nat.lt_of_lt_of_le h2 hhigh)

/-- A body that was entered has its states to itself, and what follows its branch has none. -/
theorem taken (h : Agrees state? ((id, .passed) :: states) low high) (hstates : StatesOf ids states)
    (hids : Spread low id ids) (hlow : low ≤ id) (hhigh : id < high) :
    state? id = some .passed ∧ Agrees state? states low id ∧ Untouched state? (id + 1) high := by
  refine ⟨?_, fun other h1 h2 => ?_, fun other h1 h2 => ?_⟩
  · rw [h id hlow hhigh]
    exact if_pos List.mem_cons_self
  · rw [h other h1 (Nat.lt_trans h2 hhigh), ← List.singleton_append]
    apply stateIn_append_right
    intro e he
    rw [List.mem_singleton.1 he]
    exact Nat.ne_of_gt h2
  · rw [h other (by omega) h2, ← List.singleton_append]
    refine stateIn_eq_none fun e he => ?_
    rcases List.mem_append.1 he with he | he
    · rw [List.mem_singleton.1 he]
      exact Nat.ne_of_lt h1
    · have hbounds := hids.2 e.1 (hstates e he)
      exact Nat.ne_of_lt (Nat.lt_trans hbounds.2 h1)

/-- A body that was passed over has no states, and what follows its branch has the others. -/
theorem passedOver (h : Agrees state? ((id, .failed) :: states) low high)
    (hstates : StatesOf ids states) (hids : Spread (id + 1) high ids) (hlow : low ≤ id)
    (hhigh : id < high) :
    state? id = some .failed ∧ Untouched state? low id ∧ Agrees state? states (id + 1) high := by
  refine ⟨?_, fun other h1 h2 => ?_, fun other h1 h2 => ?_⟩
  · rw [h id hlow hhigh, ← List.singleton_append, stateIn_append_left, stateIn_singleton]
    intro e he
    exact Nat.ne_of_gt (hids.2 e.1 (hstates e he)).1
  · rw [h other h1 (Nat.lt_trans h2 hhigh), ← List.singleton_append]
    refine stateIn_eq_none fun e he => ?_
    rcases List.mem_append.1 he with he | he
    · rw [List.mem_singleton.1 he]
      exact Nat.ne_of_gt h2
    · have hbounds := hids.2 e.1 (hstates e he)
      exact Nat.ne_of_gt (by omega)
  · rw [h other (by omega) h2, ← List.singleton_append]
    apply stateIn_append_right
    intro e he
    rw [List.mem_singleton.1 he]
    exact Nat.ne_of_lt h1

/-- Two parts in a row have their states to themselves. -/
theorem append {more : List (NodeId × BranchState)} {ids' : List NodeId} {middle : Nat}
    (h : Agrees state? (states ++ more) low high) (hstates : StatesOf ids states)
    (hids : Spread low middle ids) (hmore : StatesOf ids' more) (hids' : Spread middle high ids')
    (hlow : low ≤ middle) (hhigh : middle ≤ high) :
    Agrees state? states low middle ∧ Agrees state? more middle high := by
  refine ⟨fun other h1 h2 => ?_, fun other h1 h2 => ?_⟩
  · rw [h other h1 (Nat.lt_of_lt_of_le h2 hhigh)]
    apply stateIn_append_left
    intro e he
    have hbounds := hids'.2 e.1 (hmore e he)
    exact Nat.ne_of_gt (Nat.lt_of_lt_of_le h2 hbounds.1)
  · rw [h other (Nat.le_trans hlow h1) h2]
    apply stateIn_append_right
    intro e he
    have hbounds := hids.2 e.1 (hstates e he)
    exact Nat.ne_of_lt (Nat.lt_of_lt_of_le hbounds.2 h1)

end Agrees

/-! ## Chains that are not reached -/

section

variable {state? : NodeId → Option BranchState} {around : List NodeId}

theorem Untouched.eq_none {low high : Nat} (h : Untouched state? low high) {id : Nat}
    (hlow : low ≤ id) (hhigh : id < high) : state? id = none :=
  h id hlow hhigh

/-- The chains in a body that was not entered. -/
theorem Node.recorded_unreached {start id : Nat} {body : List Node}
    (hid : state? id ≠ some .passed) (h : Untouched state? start (start + Node.countAll body)) :
    ∀ c ∈ Node.chainsAll (id :: around) start body, c.Recorded state? := by
  intro c hc
  refine .inl ⟨⟨id, Node.around_chainsAll body hc List.mem_cons_self, hid⟩, fun other hother => ?_⟩
  have hbranch := (Node.branches_chainsAll (id :: around) start body).mem_iff.2
    (List.mem_flatMap.2 ⟨c, hc, hother⟩)
  have hbounds := (Node.spread_branchesAll start body).2 other hbranch
  exact h.eq_none hbounds.1 hbounds.2

/-- The further branches of a chain that were not reached, and the chains in them. -/
theorem Chain.recorded_unreached {start : Nat} {chain : Chain}
    (h : Untouched state? start (start + chain.count)) (around : List NodeId) :
    (∀ c ∈ chain.chains around start, c.Recorded state?) ∧
      (∀ id ∈ chain.conditional start, state? id = none) ∧
      ∀ id ∈ chain.last start, state? id = none := by
  have hnone (id : Nat) (hid : id ∈ (chain.chains around start).flatMap ChainBodies.all ++
      (chain.conditional start ++ (chain.last start).toList)) : state? id = none := by
    have hbranch := (Chain.branches_chains around start chain).mem_iff.2 hid
    have hbounds := (Chain.spread_branches start chain).2 id hbranch
    exact h.eq_none hbounds.1 hbounds.2
  refine ⟨fun c hc => ?_, fun id hid => ?_, fun id hid => ?_⟩
  · obtain ⟨-, id, hid, hlow, hhigh⟩ := Chain.around_chains chain hc
    refine .inl ⟨⟨id, hid, ?_⟩, fun other hother => ?_⟩
    · rw [h.eq_none hlow hhigh]
      nofun
    · exact hnone other (List.mem_append_left _ (List.mem_flatMap.2 ⟨c, hc, hother⟩))
  · exact hnone id (List.mem_append_right _ (List.mem_append_left _ hid))
  · exact hnone id (List.mem_append_right _ (List.mem_append_right _ (Option.mem_toList.2 hid)))

end

/-! ## Chains that are reached -/

theorem Resolved.entered {state? : NodeId → Option BranchState} {id : NodeId}
    {more : List NodeId} {last : Option NodeId} (hid : state? id = some .passed)
    (hmore : ∀ other ∈ more, state? other = none) (hlast : ∀ other ∈ last, state? other = none) :
    Resolved state? (id :: more) last :=
  .inl ⟨[], id, more, rfl, nofun, hid, hmore, hlast⟩

theorem Resolved.passedOver {state? : NodeId → Option BranchState} {id : NodeId}
    {more : List NodeId} {last : Option NodeId} (hid : state? id = some .failed)
    (h : Resolved state? more last) : Resolved state? (id :: more) last := by
  rcases h with ⟨before, taken, after, rfl, hbefore, htaken, hafter, hlast⟩ | ⟨hmore, hlast⟩
  · exact .inl ⟨id :: before, taken, after, rfl, List.forall_mem_cons.2 ⟨hid, hbefore⟩, htaken,
      hafter, hlast⟩
  · exact .inr ⟨List.forall_mem_cons.2 ⟨hid, hmore⟩, hlast⟩

section

variable {s : Surroundings} {state? : NodeId → Option BranchState}

/-- One branch with a condition and what follows it, from what is recorded in its body and of what
follows it. -/
theorem Chain.recorded_branch {condition : String} {body : List Node} {rest : Chain}
    {optional : Bool} {start high : Nat} {around : List NodeId} {m : Meaning}
    (h : s.choose condition
      ((Node.meaningAll s optional start body).map (.taken (start + Node.countAll body)))
      ((rest.meaning s optional (start + Node.countAll body + 1)).map
        (.passedOver (start + Node.countAll body))) = .ok m)
    (hagrees : Agrees state? m.states start high)
    (hhigh : start + Node.countAll body + 1 + rest.count ≤ high)
    (hbody : ∀ x, Node.meaningAll s optional start body = .ok x →
      Agrees state? x.states start (start + Node.countAll body) →
      state? (start + Node.countAll body) = some .passed →
      ∀ c ∈ Node.chainsAll ((start + Node.countAll body) :: around) start body,
        c.Recorded state?)
    (hrest : ∀ x, rest.meaning s optional (start + Node.countAll body + 1) = .ok x →
      Agrees state? x.states (start + Node.countAll body + 1)
        (start + Node.countAll body + 1 + rest.count) →
      (∀ c ∈ rest.chains around (start + Node.countAll body + 1), c.Recorded state?) ∧
        Resolved state? (rest.conditional (start + Node.countAll body + 1))
          (rest.last (start + Node.countAll body + 1))) :
    (∀ c ∈ Node.chainsAll ((start + Node.countAll body) :: around) start body ++
        rest.chains around (start + Node.countAll body + 1), c.Recorded state?) ∧
      Resolved state?
        ((start + Node.countAll body) :: rest.conditional (start + Node.countAll body + 1))
        (rest.last (start + Node.countAll body + 1)) := by
  have hagrees := hagrees.mono (Nat.le_refl start) hhigh
  rcases Surroundings.choose_branch_ok h with ⟨x, hx, hm⟩ | ⟨x, hx, hm⟩
  · rw [hm] at hagrees
    obtain ⟨hid, hinner, hbehind⟩ := hagrees.taken (Node.statesOfAll body hx)
      (Node.spread_branchesAll start body) (by omega) (by omega)
    obtain ⟨hchains, hconditional, hlast⟩ := Chain.recorded_unreached hbehind around
    refine ⟨fun c hc => ?_, .entered hid hconditional hlast⟩
    rcases List.mem_append.1 hc with hc | hc
    · exact hbody x hx hinner hid c hc
    · exact hchains c hc
  · rw [hm] at hagrees
    obtain ⟨hid, hinner, hbehind⟩ := hagrees.passedOver (Chain.statesOf rest hx)
      (Chain.spread_branches _ rest) (by omega) (by omega)
    obtain ⟨hchains, hresolved⟩ := hrest x hx hbehind
    refine ⟨fun c hc => ?_, .passedOver hid hresolved⟩
    rcases List.mem_append.1 hc with hc | hc
    · refine Node.recorded_unreached ?_ hinner c hc
      rw [hid]
      nofun
    · exact hchains c hc

mutual

/-- A node that is reached records each of its chains, if the states of its branches are those of
its meaning. -/
theorem Node.recorded {optional : Bool} {start : Nat} {around : List NodeId} {m : Meaning}
    (haround : ∀ id ∈ around, state? id = some .passed) :
    ∀ node : Node, node.meaning s optional start = .ok m →
      Agrees state? m.states start (start + node.count) →
      ∀ c ∈ node.chains around start, c.Recorded state?
  | .text _, _, _ | .bind _ _, _, _ | .embedded _ _, _, _ => nofun
  | .chain condition position body rest, h, hagrees => by
    rw [Node.meaning] at h
    rw [Node.count] at hagrees
    obtain ⟨hchains, hresolved⟩ := Chain.recorded_branch h hagrees (by omega)
      (fun x hx hinner hid =>
        Node.recordedAll (List.forall_mem_cons.2 ⟨hid, haround⟩) body hx hinner)
      (fun x hx hbehind => Chain.recorded haround rest hx hbehind)
    intro c hc
    rcases List.mem_append.1 hc with hc | hc
    · exact hchains c hc
    · rw [List.mem_singleton.1 hc]
      exact .inr ⟨haround, hresolved⟩
  | .block body, h, hagrees => by
    rw [Node.meaning] at h
    obtain ⟨inner, hinner, hm⟩ := Meaning.block_ok h
    -- a block that is discarded keeps its states
    have hstates : m.states = inner.states := by
      rcases hm with rfl | rfl <;> rfl
    rw [hstates, Node.count] at hagrees
    exact Node.recordedAll haround body hinner (hagrees.mono (Nat.le_refl start) (by omega))

theorem Chain.recorded {optional : Bool} {start : Nat} {around : List NodeId} {m : Meaning}
    (haround : ∀ id ∈ around, state? id = some .passed) :
    ∀ chain : Chain, chain.meaning s optional start = .ok m →
      Agrees state? m.states start (start + chain.count) →
      (∀ c ∈ chain.chains around start, c.Recorded state?) ∧
        Resolved state? (chain.conditional start) (chain.last start)
  | .done, _, _ => ⟨nofun, .inr ⟨nofun, nofun⟩⟩
  | .elseIf condition position body rest, h, hagrees => by
    rw [Chain.meaning] at h
    rw [Chain.count] at hagrees
    exact Chain.recorded_branch h hagrees (by omega)
      (fun x hx hinner hid =>
        Node.recordedAll (List.forall_mem_cons.2 ⟨hid, haround⟩) body hx hinner)
      (fun x hx hbehind => Chain.recorded haround rest hx hbehind)
  | .otherwise position body, h, hagrees => by
    rw [Chain.meaning] at h
    rw [Chain.count] at hagrees
    obtain ⟨x, hx, rfl⟩ := Meaning.map_ok h
    obtain ⟨hid, hinner, -⟩ := Agrees.taken hagrees (Node.statesOfAll body hx)
      (Node.spread_branchesAll start body) (by omega) (by omega)
    refine ⟨Node.recordedAll (List.forall_mem_cons.2 ⟨hid, haround⟩) body hx hinner, ?_⟩
    refine .inr ⟨nofun, fun id hlast => ?_⟩
    rw [← Option.mem_some_iff.1 hlast]
    exact hid

theorem Node.recordedAll {optional : Bool} {start : Nat} {around : List NodeId} {m : Meaning}
    (haround : ∀ id ∈ around, state? id = some .passed) :
    ∀ nodes : List Node, Node.meaningAll s optional start nodes = .ok m →
      Agrees state? m.states start (start + Node.countAll nodes) →
      ∀ c ∈ Node.chainsAll around start nodes, c.Recorded state?
  | [], _, _ => nofun
  | node :: rest, h, hagrees => by
    rw [Node.meaningAll] at h
    obtain ⟨x, y, hx, hy, rfl⟩ := Meaning.inRow_ok h
    rw [Node.countAll, ← Nat.add_assoc] at hagrees
    obtain ⟨hfirst, hbehind⟩ := Agrees.append hagrees (Node.statesOf node hx)
      (Node.spread_branches start node) (Node.statesOfAll rest hy)
      (Node.spread_branchesAll (start + node.count) rest) (by omega) (by omega)
    intro c hc
    rcases List.mem_append.1 hc with hc | hc
    · exact Node.recorded haround node hx hfirst c hc
    · exact Node.recordedAll haround rest hy hbehind c hc

end

end

/-! ## The coverage of a run -/

namespace Renderer

/-- A run that succeeds has recorded exactly what it did with the branches of each chain, in kept
and in discarded blocks alike. Nothing else has a state, and what has one is the number of one
branch of the template. -/
theorem coverage_exact {r : Renderer} {t : Template} {l : Lookup} {st : Statement}
    (h : (r.run true t l).result = .ok st) :
    ∃ c : Coverage, st.coverage = some c ∧
      (∀ chain ∈ t.tree.chains, chain.Recorded c.state?) ∧
      ∀ id state, c.state? id = some state →
        (∃ chain ∈ t.tree.chains, id ∈ chain.all) ∧ t.branches.countP (·.id == id) = 1 := by
  rw [run, result_eq] at h
  cases hm : t.tree.meaning ⟨l, r.evaluator, r.mappers⟩ with
  | error e =>
    rw [hm] at h
    cases h
  | ok m =>
    rw [hm] at h
    obtain rfl : m.statement r.settings true = st := Except.ok.inj h
    refine ⟨m.coverage, rfl, ?_, ?_⟩
    · have hagrees : Agrees m.coverage.state? m.states 0 (0 + Node.countAll t.tree.nodes) :=
        fun id _ _ => m.state?_coverage id
      exact Node.recordedAll (List.forall_mem_nil _) t.tree.nodes hm hagrees
    · intro id state hstate
      rw [m.state?_coverage] at hstate
      have hbranch : id ∈ t.branches.map Branch.id :=
        Node.statesOfAll t.tree.nodes hm _ (mem_of_stateIn hstate)
      have hchain := (Node.branches_chainsAll [] 0 t.tree.nodes).mem_iff.1 hbranch
      have hone := List.count_eq_one_of_mem t.tree.spread_branches.1 hbranch
      rw [List.count_eq_countP, List.countP_map] at hone
      exact ⟨List.mem_flatMap.1 hchain, hone⟩

/-- A chain in a branch, a branch behind the one that is entered, and a chain in a block that is
discarded. -/
def nestedChains : Template where
  name := none
  source := "/*IF a*//*IF b*/x/*END*//*ELIF b*/y/*END*//*BEGIN*/ z/*IF b*/ w/*END*//*END*/"
  tree := ⟨[.chain "a" ⟨0, 1, 1⟩ [.chain "b" ⟨8, 1, 9⟩ [.text "x"] .done]
      (.elseIf "b" ⟨24, 1, 25⟩ [.text "y"] .done),
    .block [.text " z", .chain "b" ⟨53, 1, 54⟩ [.text " w"] .done]]⟩
  ofSource_source := by with_unfolding_all rfl

def nestedParameters : Parameters := .ofList [("a", .bool true), ("b", .bool false)]

def nestedStatement : Statement where
  sql := ""
  binds := []
  coverage := some (((Coverage.empty.record 3 .passed).record 1 .failed).record 9 .failed)

theorem coverage_exact_nestedChains :
    (stock.run true nestedChains nestedParameters.lookup).result = .ok nestedStatement ∧
    nestedChains.tree.chains = [⟨[3], [1], none⟩, ⟨[], [3, 5], none⟩, ⟨[], [9], none⟩] ∧
    ∃ c : Coverage, nestedStatement.coverage = some c ∧
      (∀ chain ∈ nestedChains.tree.chains, chain.Recorded c.state?) ∧
      ∀ id state, c.state? id = some state →
        (∃ chain ∈ nestedChains.tree.chains, id ∈ chain.all) ∧
          nestedChains.branches.countP (·.id == id) = 1 := by
  have h : (stock.run true nestedChains nestedParameters.lookup).result = .ok nestedStatement := rfl
  exact ⟨h, rfl, coverage_exact h⟩

end Renderer

end TwoWaySql
