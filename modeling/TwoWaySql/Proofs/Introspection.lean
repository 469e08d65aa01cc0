import Mathlib.Data.List.Nodup
import TwoWaySql.Proofs.Locations
import TwoWaySql.Proofs.PostOrder
import TwoWaySql.Proofs.Recording
import TwoWaySql.Proofs.VariableNames

/-!
# What a template lists about itself

The variables and the branches of a template are collected from its tree. This file

1. reads both off the marks of a tree (`Tree.names_marks`, `Tree.entries_marks`), which are those of
   the tokens;
2. shows that a walk of the arena collects the same variables (`Arena.names_visits`), and the same
   branches in another order (`Arena.chainBranches_visits`), which sorting undoes
   (`Arena.branches_eq`), as offsets grow from token to token;
3. concludes that a template lists exactly the variables and branches of its source
   (`Template.introspection`).
-/

namespace TwoWaySql

/-! ## Variables and branches of marks -/

/-- What a list of branches says about a branch, next to its number. -/
structure BranchEntry where
  kind : BranchKind
  expression : Option String
  position : Position
  deriving DecidableEq, Repr

def Branch.entry (b : Branch) : BranchEntry := ⟨b.kind, b.expression, b.position⟩

/-- The branch that a token starts. -/
def TokenKind.entry? (kind : TokenKind) (position : Position) : Option BranchEntry :=
  match kind with
  | .ifThen condition => some ⟨.ifThen, some condition, position⟩
  | .elseIf condition => some ⟨.elseIf, some condition, position⟩
  | .otherwise => some ⟨.otherwise, none, position⟩
  | _ => none

theorem TokenKind.position_of_entry? {kind : TokenKind} {position : Position} {entry : BranchEntry}
    (h : kind.entry? position = some entry) : entry.position = position := by
  cases kind <;> cases h <;> rfl

def Mark.entry? (m : Mark) : Option BranchEntry := m.place.bind m.kind.entry?

theorem Token.entry?_mark (token : Token) :
    token.mark.entry? = token.kind.entry? token.position := by
  obtain ⟨kind, position⟩ := token
  cases kind <;> rfl

/-- A mark with a place is a branch. -/
theorem Mark.filterMap_entry? {kind : TokenKind} {position : Position} {entry : BranchEntry}
    (h : kind.entry? position = some entry) (marks : List Mark) :
    ((⟨kind, some position⟩ : Mark) :: marks).filterMap entry? =
      entry :: marks.filterMap entry? :=
  List.filterMap_cons_some h

def Mark.name? (m : Mark) : Option String := m.kind.name?

mutual

theorem Node.names_marks : ∀ node : Node, node.marks.filterMap Mark.name? = node.names
  | .text _ | .bind _ _ | .embedded _ _ => rfl
  | .chain condition position body rest => by
    rw [Node.marks, List.filterMap_cons_none rfl, List.filterMap_append, Node.namesAll_marks body,
      Chain.names_marks rest, Node.names]
  | .block body => by
    rw [Node.marks, List.filterMap_cons_none rfl, List.filterMap_append, Node.namesAll_marks body]
    exact List.append_nil _

theorem Chain.names_marks : ∀ chain : Chain, chain.marks.filterMap Mark.name? = chain.names
  | .done => rfl
  | .elseIf condition position body rest => by
    rw [Chain.marks, List.filterMap_cons_none rfl, List.filterMap_append, Node.namesAll_marks body,
      Chain.names_marks rest, Chain.names]
  | .otherwise position body => by
    rw [Chain.marks, List.filterMap_cons_none rfl, List.filterMap_append, Node.namesAll_marks body]
    exact List.append_nil _

theorem Node.namesAll_marks : ∀ nodes : List Node,
    (Node.marksAll nodes).filterMap Mark.name? = Node.namesAll nodes
  | [] => rfl
  | node :: rest => by
    rw [Node.marksAll, List.filterMap_append, Node.names_marks node, Node.namesAll_marks rest,
      Node.namesAll]

end

mutual

theorem Node.entries_marks (start : NodeId) : ∀ node : Node,
    node.marks.filterMap Mark.entry? = (node.branches start).map Branch.entry
  | .text _ | .bind _ _ | .embedded _ _ => rfl
  | .chain condition position body rest => by
    rw [Node.marks, Mark.filterMap_entry? rfl, List.filterMap_append,
      Node.entriesAll_marks start body, Chain.entries_marks _ rest, Node.branches, List.map_cons,
      List.map_append]
    rfl
  | .block body => by
    rw [Node.marks, List.filterMap_cons_none rfl, List.filterMap_append,
      Node.entriesAll_marks start body]
    exact List.append_nil _

theorem Chain.entries_marks (start : NodeId) : ∀ chain : Chain,
    chain.marks.filterMap Mark.entry? = (chain.branches start).map Branch.entry
  | .done => rfl
  | .elseIf condition position body rest => by
    rw [Chain.marks, Mark.filterMap_entry? rfl, List.filterMap_append,
      Node.entriesAll_marks start body, Chain.entries_marks _ rest, Chain.branches, List.map_cons,
      List.map_append]
    rfl
  | .otherwise position body => by
    rw [Chain.marks, Mark.filterMap_entry? rfl, List.filterMap_append,
      Node.entriesAll_marks start body, Chain.branches, List.map_cons]
    exact congrArg _ (List.append_nil _)

theorem Node.entriesAll_marks (start : NodeId) : ∀ nodes : List Node,
    (Node.marksAll nodes).filterMap Mark.entry? = (Node.branchesAll start nodes).map Branch.entry
  | [] => rfl
  | node :: rest => by
    rw [Node.marksAll, List.filterMap_append, Node.entries_marks start node,
      Node.entriesAll_marks _ rest, Node.branchesAll, List.map_append]

end

/-! ## Variables that a walk meets -/

/-- The name of a node that is a variable. -/
def ListedNode.name? : ListedNode → Option String
  | .bind name _ | .embedded name _ => some name
  | _ => none

def visitName? (visit : ListedNode × NodeId) : Option String := visit.1.name?

mutual

theorem Node.names_visits (start : Nat) : ∀ node : Node,
    (node.visits start).filterMap visitName? = node.names
  | .text _ | .bind _ _ | .embedded _ _ => rfl
  | .chain condition position body rest => by
    rw [Node.visits, List.filterMap_cons_none rfl, List.filterMap_cons_none rfl,
      List.filterMap_append, Node.namesAll_visits start body, Chain.names_visits _ rest, Node.names]
  | .block body => by
    rw [Node.visits, List.filterMap_cons_none rfl, Node.namesAll_visits start body, Node.names]

theorem Chain.names_visits (start : Nat) : ∀ chain : Chain,
    (chain.visits start).filterMap visitName? = chain.names
  | .done => rfl
  | .elseIf condition position body rest => by
    rw [Chain.visits, List.filterMap_cons_none rfl, List.filterMap_append,
      Node.namesAll_visits start body, Chain.names_visits _ rest, Chain.names]
  | .otherwise position body => by
    rw [Chain.visits, List.filterMap_cons_none rfl, Node.namesAll_visits start body, Chain.names]

theorem Node.namesAll_visits (start : Nat) : ∀ nodes : List Node,
    (Node.visitsAll start nodes).filterMap visitName? = Node.namesAll nodes
  | [] => rfl
  | node :: rest => by
    rw [Node.visitsAll, List.filterMap_append, Node.names_visits start node,
      Node.namesAll_visits _ rest, Node.namesAll]

end

namespace Arena

theorem addName_of_name? {node : ListedNode} {name : String} (h : node.name? = some name)
    (names : List String) :
    addName names node = if names.contains name then names else names ++ [name] := by
  cases node <;> cases h <;> rfl

theorem addName_of_none {node : ListedNode} (h : node.name? = none) (names : List String) :
    addName names node = names := by
  cases node <;> first | rfl | cases h

/-- Collecting names leaves out those that are there already. -/
theorem foldl_addName (nodes : List ListedNode) (names : List String) :
    nodes.foldl addName names =
      names ++ ((nodes.filterMap ListedNode.name?).filter fun name =>
        !names.contains name).eraseDups := by
  induction nodes generalizing names with
  | nil => exact (List.append_nil names).symm
  | cons node rest ih =>
    rw [List.foldl_cons, ih]
    cases hname : node.name? with
    | none => rw [addName_of_none hname, List.filterMap_cons_none hname]
    | some name =>
      rw [addName_of_name? hname, List.filterMap_cons_some hname, List.filter_cons]
      cases hfound : names.contains name with
      | true => rfl
      | false =>
        have hothers : (fun other => !(names ++ [name]).contains other) =
            fun other => (!other == name) && !names.contains other := by
          funext other
          rw [List.contains_append, List.contains_cons, List.contains_nil, Bool.or_false,
            Bool.not_or, Bool.and_comm]
        rw [if_neg Bool.false_ne_true, if_pos Bool.not_false, List.eraseDups_cons,
          List.filter_filter, hothers, List.append_assoc]
        rfl

theorem names_eq (nodes : List ListedNode) :
    names nodes = (nodes.filterMap ListedNode.name?).eraseDups := by
  rw [names, foldl_addName, List.nil_append]
  congr 1
  exact List.filter_eq_self.2 fun name _ => rfl

/-! ## Branches that a walk meets -/

/-- The branches of a chain behind the first one. -/
def alternatives (branches : List ListedBranch) (otherwise : Option ListedElse) : List Branch :=
  branches.map (fun branch => ⟨branch.body, .elseIf, some branch.condition, branch.position⟩) ++
    (otherwise.map fun last => ⟨last.body, .otherwise, none, last.position⟩).toList

theorem chainBranches_cons (first : ListedBranch) (branches : List ListedBranch)
    (otherwise : Option ListedElse) :
    chainBranches (.chain (first :: branches) otherwise) =
      ⟨first.body, .ifThen, some first.condition, first.position⟩ ::
        alternatives branches otherwise := by
  have hrest (make : ListedBranch → Branch) :
      branches.mapIdx (fun _ branch => make branch) = branches.map make := by
    induction branches with
    | nil => rfl
    | cons branch rest ih => rw [List.mapIdx_cons, ih, List.map_cons]
  rw [chainBranches, List.mapIdx_cons, alternatives, ← hrest]
  rfl

/-- The bodies of a chain are its parts. -/
theorem ids_chainBranches (branches : List ListedBranch) (otherwise : Option ListedElse) :
    (chainBranches (.chain branches otherwise)).map Branch.id =
      (ListedNode.chain branches otherwise).parts := by
  cases branches with
  | nil => cases otherwise <;> rfl
  | cons first rest =>
    rw [chainBranches_cons, alternatives, ListedNode.parts]
    cases otherwise <;> simp

end Arena

def visitBranches (visit : ListedNode × NodeId) : List Branch := Arena.chainBranches visit.1

/-- Branches in front of those met in a body and behind it stand between them in the source. -/
theorem branches_perm {own inner behind inner' behind' : List Branch}
    (hinner : inner.Perm inner') (hbehind : (own ++ behind).Perm behind') :
    (own ++ (inner ++ behind)).Perm (inner' ++ behind') :=
  (List.perm_append_comm_assoc own inner behind).trans (hinner.append hbehind)

mutual

theorem Node.branches_visits (start : Nat) : ∀ node : Node,
    ((node.visits start).flatMap visitBranches).Perm (node.branches start)
  | .text _ | .bind _ _ | .embedded _ _ => .nil
  | .chain condition position body rest => by
    have hbehind := Chain.branches_visits (start + Node.countAll body + 1) rest
    have hall := branches_perm (Node.branchesAll_visits start body) hbehind
    rw [Node.visits, List.flatMap_cons, List.flatMap_cons, List.flatMap_append, Node.branches]
    show (Arena.chainBranches _ ++ _).Perm _
    rw [Arena.chainBranches_cons]
    exact hall.cons _
  | .block body => Node.branchesAll_visits start body

theorem Chain.branches_visits (start : Nat) : ∀ chain : Chain,
    (Arena.alternatives (chain.listedBranches start) (chain.listedElse? start) ++
      (chain.visits start).flatMap visitBranches).Perm (chain.branches start)
  | .done => .nil
  | .elseIf condition position body rest => by
    have hbehind := Chain.branches_visits (start + Node.countAll body + 1) rest
    have hall := branches_perm (Node.branchesAll_visits start body) hbehind
    rw [Chain.visits, List.flatMap_cons, List.flatMap_append, Chain.branches]
    exact hall.cons _
  | .otherwise position body => (Node.branchesAll_visits start body).cons _

theorem Node.branchesAll_visits (start : Nat) : ∀ nodes : List Node,
    ((Node.visitsAll start nodes).flatMap visitBranches).Perm (Node.branchesAll start nodes)
  | [] => .nil
  | node :: rest => by
    rw [Node.visitsAll, List.flatMap_append, Node.branchesAll]
    exact (Node.branches_visits start node).append (Node.branchesAll_visits _ rest)

end

/-! ## Sorting by position -/

namespace Position

instance : Std.TransCmp order :=
  inferInstanceAs (Std.TransCmp (compareLex (compareOn offset)
    (compareLex (compareOn line) (compareOn column))))

theorem order_total (p q : Position) : ((p.order q).isLE || (q.order p).isLE) = true := by
  have hswap : p.order q = (q.order p).swap := Std.OrientedCmp.eq_swap
  rw [hswap]
  cases q.order p <;> rfl

theorem order_of_lt {p q : Position} (h : p.offset < q.offset) : p.order q = .lt := by
  have hoffset : compare p.offset q.offset = .lt := Nat.compare_eq_lt.2 h
  rw [order, compareLex, compareOn, hoffset]
  rfl

theorem offset_le_of_order {p q : Position} (h : (p.order q).isLE = true) :
    p.offset ≤ q.offset := by
  by_contra hlt
  have hswap : p.order q = (q.order p).swap := Std.OrientedCmp.eq_swap
  rw [hswap, order_of_lt (Nat.lt_of_not_le hlt)] at h
  cases h

end Position

/-- Sorting brings branches back into an order in which their offsets grow. -/
theorem Arena.branches_eq {nodes : List ListedNode} {branches : List Branch}
    (hperm : (nodes.flatMap chainBranches).Perm branches)
    (hgrow : branches.Pairwise fun b c => b.position.offset < c.position.offset) :
    Arena.branches nodes = branches := by
  have hsorted : (Arena.branches nodes).Pairwise
      fun b c => (b.position.order c.position).isLE = true :=
    List.pairwise_mergeSort (fun _ _ _ => Std.TransCmp.isLE_trans)
      (fun _ _ => Position.order_total _ _) _
  have hsame : (Arena.branches nodes).Perm branches := (List.mergeSort_perm _ _).trans hperm
  have hinj := List.inj_on_of_nodup_map
    ((List.pairwise_map.2 hgrow).imp Nat.ne_of_lt : (branches.map (·.position.offset)).Nodup)
  refine hsame.eq_of_pairwise (fun b c hb hc hbc hcb => ?_) hsorted
    (hgrow.imp fun h => by rw [Position.order_of_lt h]; rfl)
  exact hinj (hsame.mem_iff.1 hb) hc
    (Nat.le_antisymm (Position.offset_le_of_order hbc) (Position.offset_le_of_order hcb))

/-! ## Templates -/

/-- The walk of a tree's arena collects the variables and the branches of the tree. -/
theorem Tree.names_arena (t : Tree) : Arena.names (t.visits.map Prod.fst) = t.parameters := by
  rw [Arena.names_eq, List.filterMap_map, parameters]
  exact congrArg List.eraseDups (Node.namesAll_visits 0 t.nodes)

theorem Tree.chainBranches_visits (t : Tree) :
    ((t.visits.map Prod.fst).flatMap Arena.chainBranches).Perm t.branches := by
  rw [List.flatMap_map]
  exact Node.branchesAll_visits 0 t.nodes

/-- The number of a branch is that of a sequence. -/
theorem Tree.body_of_mem_branches {t : Tree} {b : Branch} (hb : b ∈ t.branches) :
    ∃ parts, t.listing[b.id]? = some (.sequence parts) := by
  obtain ⟨node, hnode, hchain⟩ := List.mem_flatMap.1 (t.chainBranches_visits.mem_iff.2 hb)
  obtain ⟨visit, hvisit, rfl⟩ := List.mem_map.1 hnode
  have hentry := List.mem_zipIdx_iff_getElem?.1 (t.visits_perm.mem_iff.1 hvisit)
  cases hnode : visit.1 with
  | chain branches otherwise =>
    rw [hnode] at hentry hchain
    have hbodied := t.ordered_arena.bodied _ (List.mem_of_getElem? hentry) branches otherwise rfl
    refine hbodied.2 b.id ?_
    rw [← Arena.ids_chainBranches]
    exact List.mem_map_of_mem hchain
  | _ =>
    rw [hnode] at hchain
    cases hchain

/-- A template lists exactly what is in its source: the names of its variables, each where it occurs
first, and a branch for each token that starts one, in the order of the source, with a number of its
own, which is that of a sequence. Both are what a walk of the arena collects, with the branches
sorted by position. -/
theorem Template.introspection (t : Template) :
    let tokens := (Token.scan t.source).tokens
    (Token.scan t.source).failure = none ∧
      t.parameters = (tokens.filterMap fun token => token.kind.name?).eraseDups ∧
      t.branches.map Branch.entry =
        tokens.filterMap (fun token => token.kind.entry? token.position) ∧
      (t.branches.map Branch.id).Nodup ∧
      (∀ b ∈ t.branches, ∃ parts, t.tree.listing[b.id]? = some (.sequence parts)) ∧
      t.branches.Pairwise (fun b c => b.position.offset < c.position.offset) ∧
      ∀ beyond, let nodes := (t.tree.arena.walk beyond 130 t.tree.root).map Prod.fst
        Arena.names nodes = t.parameters ∧ Arena.branches nodes = t.branches := by
  intro tokens
  obtain ⟨hfailure, hmarks⟩ := Tree.marks_of_ofSource t.ofSource_source
  have hnames : Node.namesAll t.tree.nodes = tokens.filterMap fun token => token.kind.name? := by
    rw [← Node.namesAll_marks]
    show t.tree.marks.filterMap _ = _
    rw [hmarks, List.filterMap_map]
    rfl
  have hentries : t.branches.map Branch.entry =
      tokens.filterMap fun token => token.kind.entry? token.position := by
    rw [branches, Tree.branches, ← Node.entriesAll_marks]
    show t.tree.marks.filterMap _ = _
    rw [hmarks, List.filterMap_map]
    exact List.filterMap_congr fun token _ => token.entry?_mark
  have hgrow : t.branches.Pairwise fun b c => b.position.offset < c.position.offset := by
    have htokens := (Token.scan_placed t.source).pairwise
    have hpositions : (t.branches.map Branch.entry).Pairwise
        fun b c => b.position.offset < c.position.offset := by
      rw [hentries, List.pairwise_filterMap]
      refine htokens.imp fun hlt b hb c hc => ?_
      rwa [TokenKind.position_of_entry? hb, TokenKind.position_of_entry? hc]
    rwa [List.pairwise_map] at hpositions
  have hlevels := Tree.levels_le (Tree.depth_le_of_ofItems t.ofSource_source)
  refine ⟨hfailure, congrArg List.eraseDups hnames, hentries, t.tree.spread_branches.1,
    fun b hb => Tree.body_of_mem_branches hb, hgrow, fun beyond => ?_⟩
  rw [t.tree.walk_arena beyond hlevels]
  exact ⟨t.tree.names_arena, Arena.branches_eq t.tree.chainBranches_visits hgrow⟩

end TwoWaySql
