import TwoWaySql.Proofs.Nesting
import TwoWaySql.Proofs.Rendering
import TwoWaySql.Proofs.Validation

/-!
# What optional blocks leave out

An optional block that is idle, because no variable in it stands for a value and no branch in it is
entered, comes to nothing. A block does nothing else: where all of a tree can be rendered without
its blocks, it comes to the same with them, less the texts of the blocks that are idle. This file

1. puts the nodes of blocks in the place of the blocks (`Tree.withoutBlocks`), which is what a row
   of tokens builds when the marks of its blocks are dropped (`Tree.ofItems_withoutBlocks`);
2. says which nodes are idle (`Node.isIdle`), and what a tree comes to without its blocks, with what
   the blocks leave out marked (`Node.passages`). Only texts are left out (`Node.texts`);
3. relates what a part of a tree comes to with and without blocks (`Surroundings.Omits`), with one
   lemma for each way in which meanings are put together, and concludes by induction over the tree
   (`Node.omits`, `Renderer.result_withoutBlocks`).
-/

namespace TwoWaySql

/-! ## Trees without blocks -/

mutual

/-- The node without optional blocks: in place of a block stand its nodes. -/
def Node.withoutBlocks : Node → List Node
  | .text content => [.text content]
  | .bind name paren => [.bind name paren]
  | .embedded name quoted => [.embedded name quoted]
  | .chain condition position body rest =>
    [.chain condition position (Node.withoutBlocksAll body) rest.withoutBlocks]
  | .block body => Node.withoutBlocksAll body

def Chain.withoutBlocks : Chain → Chain
  | .done => .done
  | .elseIf condition position body rest =>
    .elseIf condition position (Node.withoutBlocksAll body) rest.withoutBlocks
  | .otherwise position body => .otherwise position (Node.withoutBlocksAll body)

def Node.withoutBlocksAll : List Node → List Node
  | [] => []
  | node :: rest => node.withoutBlocks ++ Node.withoutBlocksAll rest

end

/-- The tree without optional blocks. -/
def Tree.withoutBlocks (t : Tree) : Tree := ⟨Node.withoutBlocksAll t.nodes⟩

def TokenKind.boundsBlock : TokenKind → Bool
  | .beginBlock | .endBlock => true
  | _ => false

/-- The marks without those of optional blocks. -/
def Mark.dropBlocks (marks : List Mark) : List Mark := marks.filter fun m => !m.kind.boundsBlock

namespace Mark

@[simp]
theorem dropBlocks_append (marks more : List Mark) :
    dropBlocks (marks ++ more) = dropBlocks marks ++ dropBlocks more :=
  List.filter_append ..

theorem dropBlocks_cons {mark : Mark} (h : mark.kind.boundsBlock = false) (marks : List Mark) :
    dropBlocks (mark :: marks) = mark :: dropBlocks marks := by
  rw [dropBlocks, List.filter_cons_of_pos (by rw [h]; rfl)]
  rfl

end Mark

open Mark (dropBlocks dropBlocks_append dropBlocks_cons)

mutual

theorem Node.marksAll_withoutBlocks :
    ∀ node : Node, Node.marksAll node.withoutBlocks = dropBlocks node.marks
  | .text content => rfl
  | .bind name paren => rfl
  | .embedded name quoted => rfl
  | .chain condition position body rest => by
    rw [Node.withoutBlocks, Node.marksAll, Node.marksAll, List.append_nil, Node.marks, Node.marks,
      dropBlocks_cons rfl, dropBlocks_append, Node.marksAll_withoutBlocksAll,
      Chain.marks_withoutBlocks]
  | .block body => by
    rw [Node.withoutBlocks, Node.marks, Node.marksAll_withoutBlocksAll]
    show _ = dropBlocks (Node.marksAll body ++ [⟨.endBlock, none⟩])
    rw [dropBlocks_append]
    exact (List.append_nil _).symm

theorem Chain.marks_withoutBlocks :
    ∀ chain : Chain, chain.withoutBlocks.marks = dropBlocks chain.marks
  | .done => rfl
  | .elseIf condition position body rest => by
    rw [Chain.withoutBlocks, Chain.marks, Chain.marks, dropBlocks_cons rfl, dropBlocks_append,
      Node.marksAll_withoutBlocksAll, Chain.marks_withoutBlocks]
  | .otherwise position body => by
    rw [Chain.withoutBlocks, Chain.marks, Chain.marks, dropBlocks_cons rfl, dropBlocks_append,
      Node.marksAll_withoutBlocksAll]
    rfl

theorem Node.marksAll_withoutBlocksAll :
    ∀ nodes : List Node,
      Node.marksAll (Node.withoutBlocksAll nodes) = dropBlocks (Node.marksAll nodes)
  | [] => rfl
  | node :: rest => by
    rw [Node.withoutBlocksAll, Node.marksAll, Node.marksAll_append, dropBlocks_append,
      Node.marksAll_withoutBlocks, Node.marksAll_withoutBlocksAll]

end

mutual

theorem Node.depthAll_withoutBlocks :
    ∀ node : Node, Node.depthAll node.withoutBlocks ≤ node.depth
  | .text _ | .bind _ _ | .embedded _ _ => Nat.le_refl 0
  | .chain condition position body rest => by
    have hbody := Node.depthAll_withoutBlocksAll body
    have hrest := Chain.depth_withoutBlocks rest
    simp only [Node.withoutBlocks, Node.depthAll, Node.depth]
    omega
  | .block body => by
    have hbody := Node.depthAll_withoutBlocksAll body
    rw [Node.withoutBlocks, Node.depth]
    omega

theorem Chain.depth_withoutBlocks : ∀ chain : Chain, chain.withoutBlocks.depth ≤ chain.depth
  | .done => Nat.le_refl 0
  | .elseIf condition position body rest => by
    have hbody := Node.depthAll_withoutBlocksAll body
    have hrest := Chain.depth_withoutBlocks rest
    simp only [Chain.withoutBlocks, Chain.depth]
    omega
  | .otherwise position body => Node.depthAll_withoutBlocksAll body

theorem Node.depthAll_withoutBlocksAll :
    ∀ nodes : List Node, Node.depthAll (Node.withoutBlocksAll nodes) ≤ Node.depthAll nodes
  | [] => Nat.le_refl 0
  | node :: rest => by
    have hnode := Node.depthAll_withoutBlocks node
    have hrest := Node.depthAll_withoutBlocksAll rest
    rw [Node.withoutBlocksAll, Node.depthAll_append, Node.depthAll]
    omega

end

/-- Tokens that build a tree build the tree without blocks when those that bound a block are
dropped, up to the places of branches. -/
theorem Tree.ofItems_withoutBlocks {tokens : List Token} {t : Tree}
    (h : ofItems (tokens.map .ok) = .ok t) :
    ∃ built : Tree,
      ofItems ((tokens.filter fun token => !token.kind.boundsBlock).map .ok) = .ok built ∧
      built.erase = t.withoutBlocks.erase := by
  refine ofItems_of_marks ?_ ?_
  · have hmarks : t.withoutBlocks.marks = dropBlocks (tokens.map Token.mark) := by
      rw [← marks_of_ofItems h]
      exact Node.marksAll_withoutBlocksAll t.nodes
    rw [hmarks, dropBlocks, List.filter_map, List.map_map]
    rfl
  · exact Nat.le_trans (Node.depthAll_withoutBlocksAll t.nodes) (depth_le_of_ofItems h)

/-! ## Idle nodes -/

/-- What a condition picks; `other` stands for a condition that has no truth value. -/
def Surroundings.pick {α : Type} (s : Surroundings) (condition : String) (yes no other : α) : α :=
  match s.holds condition with
  | .ok true => yes
  | .ok false => no
  | .error _ => other

mutual

/-- Whether no variable of a node that is reached stands for a value and no branch is entered. -/
def Node.isIdle (s : Surroundings) : Node → Bool
  | .text _ => true
  | .bind name _ | .embedded name _ => !s.lookup.resolves name
  | .chain condition _ _ rest => s.pick condition false (rest.isIdle s) true
  | .block body => Node.isIdleAll s body

def Chain.isIdle (s : Surroundings) : Chain → Bool
  | .done => true
  | .elseIf condition _ _ rest => s.pick condition false (rest.isIdle s) true
  | .otherwise _ _ => false

def Node.isIdleAll (s : Surroundings) : List Node → Bool
  | [] => true
  | node :: rest => node.isIdle s && Node.isIdleAll s rest

end

/-! ## Passages -/

/-- A piece of what a tree comes to without its blocks. -/
structure Passage where
  piece : Piece
  /-- Whether the piece stands in an optional block that is idle. -/
  omitted : Bool

namespace Passage

def ofPieces (pieces : List Piece) : List Passage := pieces.map (⟨·, false⟩)

/-- The passages of an idle block. -/
def leaveOut (passages : List Passage) : List Passage := passages.map ({ · with omitted := true })

/-- All of the pieces. -/
def pieces (passages : List Passage) : List Piece := passages.map Passage.piece

/-- The pieces that are not left out. -/
def kept (passages : List Passage) : List Piece :=
  (passages.filter fun p => !p.omitted).map Passage.piece

theorem pieces_append (passages more : List Passage) :
    pieces (passages ++ more) = pieces passages ++ pieces more :=
  List.map_append

theorem kept_append (passages more : List Passage) :
    kept (passages ++ more) = kept passages ++ kept more := by
  rw [kept, List.filter_append, List.map_append]
  rfl

theorem pieces_ofPieces (ps : List Piece) : pieces (ofPieces ps) = ps := by
  rw [pieces, ofPieces, List.map_map]
  exact List.map_id ps

theorem kept_ofPieces (ps : List Piece) : kept (ofPieces ps) = ps := by
  rw [kept, List.filter_eq_self.2 (by simp [ofPieces])]
  exact pieces_ofPieces ps

theorem pieces_leaveOut (passages : List Passage) :
    pieces (leaveOut passages) = pieces passages := by
  rw [pieces, leaveOut, List.map_map]
  rfl

theorem kept_leaveOut (passages : List Passage) : kept (leaveOut passages) = [] := by
  rw [kept, List.filter_eq_nil_iff.2 (by simp [leaveOut])]
  rfl

end Passage

/-- The passages of a variable: the pieces of its value. -/
def Surroundings.passages (s : Surroundings) (name : String) (pieces : Value → List Piece) :
    List Passage :=
  match s.lookup.resolve? name with
  | .ok (some v) => Passage.ofPieces (pieces v)
  | _ => []

mutual

/-- What a node comes to without its blocks, with what the blocks leave out marked. -/
def Node.passages (s : Surroundings) : Node → List Passage
  | .text content => [⟨.text content, false⟩]
  | .bind name paren => s.passages name (Piece.ofBind s.mappers name paren)
  | .embedded name quoted => s.passages name (Piece.ofEmbedded s.mappers quoted)
  | .chain condition _ body rest =>
    s.pick condition (Node.passagesAll s body) (rest.passages s) []
  | .block body =>
    if Node.isIdleAll s body then Passage.leaveOut (Node.passagesAll s body)
    else Node.passagesAll s body

def Chain.passages (s : Surroundings) : Chain → List Passage
  | .done => []
  | .elseIf condition _ body rest =>
    s.pick condition (Node.passagesAll s body) (rest.passages s) []
  | .otherwise _ body => Node.passagesAll s body

def Node.passagesAll (s : Surroundings) : List Node → List Passage
  | [] => []
  | node :: rest => node.passages s ++ Node.passagesAll s rest

end

def Tree.passages (s : Surroundings) (t : Tree) : List Passage := Node.passagesAll s t.nodes

/-! ## What is left out is text -/

/-- What blocks leave out of the passages is text among the marks, and so are all of the passages if
they are those of something `idle`. -/
def Passage.Texts (marks : List Mark) (idle : Bool) (passages : List Passage) : Prop :=
  ∀ p ∈ passages, p.omitted = true ∨ idle = true →
    ∃ content, p.piece = .text content ∧ ⟨.text content, none⟩ ∈ marks

namespace Passage.Texts

variable {s : Surroundings} {marks : List Mark} {idle : Bool} {passages : List Passage}

theorem mono {more : List Mark} (h : Texts marks idle passages) (hmarks : marks ⊆ more) :
    Texts more idle passages := by
  intro p hp hleft
  obtain ⟨content, hcontent, hmark⟩ := h p hp hleft
  exact ⟨content, hcontent, hmarks hmark⟩

theorem nil (marks : List Mark) (idle : Bool) : Texts marks idle [] := nofun

theorem append {idle' : Bool} {more : List Passage} (h : Texts marks idle passages)
    (hmore : Texts marks idle' more) : Texts marks (idle && idle') (passages ++ more) := by
  intro p hp hleft
  rw [Bool.and_eq_true] at hleft
  rcases List.mem_append.1 hp with hp | hp
  · exact h p hp (hleft.imp_right And.left)
  · exact hmore p hp (hleft.imp_right And.right)

theorem pick {condition : String} {no : List Passage} (hyes : Texts marks false passages)
    (hno : Texts marks idle no) :
    Texts marks (s.pick condition false idle true) (s.pick condition passages no []) := by
  unfold Surroundings.pick
  split
  · exact hyes
  · exact hno
  · exact nil marks true

/-- A branch that is entered is not idle, whether its body is or not. -/
theorem entered (h : Texts marks idle passages) : Texts marks false passages := by
  intro p hp hleft
  exact h p hp (hleft.imp_right fun hfalse => absurd hfalse Bool.false_ne_true)

/-- A variable that is not idle has no passage that is left out. -/
theorem ofVariable (marks : List Mark) (name : String) (pieces : Value → List Piece) :
    Texts marks (!s.lookup.resolves name) (s.passages name pieces) := by
  unfold Surroundings.passages
  split
  · next v hv =>
    intro p hp hleft
    obtain ⟨piece, -, rfl⟩ := List.mem_map.1 hp
    simp [Lookup.resolves, hv] at hleft
  · exact nil marks _

theorem block (h : Texts marks idle passages) :
    Texts marks idle (if idle then leaveOut passages else passages) := by
  cases idle with
  | false => exact h
  | true =>
    intro p hp _
    obtain ⟨inner, hinner, rfl⟩ := List.mem_map.1 hp
    exact h inner hinner (.inr rfl)

end Passage.Texts

section

variable (s : Surroundings)

mutual

/-- What blocks leave out of a node is text of the node, and an idle node is nothing but text. -/
theorem Node.texts : ∀ node : Node, Passage.Texts node.marks (node.isIdle s) (node.passages s)
  | .text content => by
    intro p hp _
    obtain rfl := List.mem_singleton.1 hp
    exact ⟨content, rfl, List.mem_singleton.2 rfl⟩
  | .bind name paren => .ofVariable _ name _
  | .embedded name quoted => .ofVariable _ name _
  | .chain condition position body rest => by
    rw [Node.marks, Node.isIdle, Node.passages]
    have hbody := (Node.textsAll body).entered
    exact .pick (hbody.mono (by simp)) ((Chain.texts rest).mono (by simp))
  | .block body => by
    rw [Node.marks, Node.isIdle, Node.passages]
    exact (Node.textsAll body).block.mono (by simp)

theorem Chain.texts :
    ∀ chain : Chain, Passage.Texts chain.marks (chain.isIdle s) (chain.passages s)
  | .done => .nil _ _
  | .elseIf condition position body rest => by
    rw [Chain.marks, Chain.isIdle, Chain.passages]
    have hbody := (Node.textsAll body).entered
    exact .pick (hbody.mono (by simp)) ((Chain.texts rest).mono (by simp))
  | .otherwise position body => by
    rw [Chain.marks, Chain.isIdle, Chain.passages]
    exact (Node.textsAll body).entered.mono (by simp)

theorem Node.textsAll :
    ∀ nodes : List Node,
      Passage.Texts (Node.marksAll nodes) (Node.isIdleAll s nodes) (Node.passagesAll s nodes)
  | [] => .nil _ _
  | node :: rest => by
    rw [Node.marksAll, Node.isIdleAll, Node.passagesAll]
    exact ((Node.texts node).mono (by simp)).append ((Node.textsAll rest).mono (by simp))

end

end

/-! ## With blocks and without them -/

/-- The meaning is that of pieces, with no name absent. -/
structure Meaning.Reads (m : Meaning) (pieces : List Piece) (live : Bool) : Prop where
  pieces : m.pieces = pieces
  live : m.live = live
  absent : m.absent = []

namespace Meaning

theorem Reads.append {m n : Meaning} {pieces more : List Piece} {live live' : Bool}
    (hm : m.Reads pieces live) (hn : n.Reads more live') :
    (m.append n).Reads (pieces ++ more) (live || live') where
  pieces := congrArg₂ (· ++ ·) hm.pieces hn.pieces
  live := congrArg₂ (· || ·) hm.live hn.live
  absent := congrArg₂ (· ++ ·) hm.absent hn.absent

theorem inRow_nothing (r : Except Error Meaning) : inRow r (.ok (.ofPieces [])) = r := by
  cases r with
  | error e => rfl
  | ok m =>
    show Except.ok (m.append (.ofPieces [])) = _
    simp [append, ofPieces]

theorem nothing_inRow (r : Except Error Meaning) : inRow (.ok (.ofPieces [])) r = r := by
  cases r <;> rfl

theorem inRow_assoc (x y z : Except Error Meaning) :
    inRow (inRow x y) z = inRow x (inRow y z) := by
  cases x with
  | error e => rfl
  | ok x =>
    cases y with
    | error e => rfl
    | ok y =>
      cases z with
      | error e => rfl
      | ok z => simp [inRow, append, Bool.or_assoc]

end Meaning

/-- Sequences in a row come to what they come to one behind the other. -/
theorem Node.meaningAll_append (s : Surroundings) (optional : Bool) (first second : List Node)
    (start : NodeId) :
    ∃ next, Node.meaningAll s optional start (first ++ second) =
      Meaning.inRow (Node.meaningAll s optional start first)
        (Node.meaningAll s optional next second) := by
  induction first generalizing start with
  | nil => exact ⟨start, (Meaning.nothing_inRow _).symm⟩
  | cons node rest ih =>
    obtain ⟨next, hnext⟩ := ih (start + node.count)
    refine ⟨next, ?_⟩
    rw [List.cons_append, Node.meaningAll, Node.meaningAll, hnext, Meaning.inRow_assoc]

theorem Node.meaningAll_singleton (s : Surroundings) (optional : Bool) (start : NodeId)
    (node : Node) : Node.meaningAll s optional start [node] = node.meaning s optional start :=
  Meaning.inRow_nothing _

namespace Surroundings

/-- What a part of a tree comes to, and what it comes to without its blocks (`bare`): the passages
that are not left out and all of them, or one error for both. Without its blocks it may also fail
for a name that is absent. -/
inductive Omits (s : Surroundings) (passages : List Passage) (idle : Bool) :
    (r bare : Except Error Meaning) → Prop
  | agree {m bare : Meaning} (kept : m.Reads (Passage.kept passages) (!idle))
    (all : bare.Reads (Passage.pieces passages) (!idle)) : Omits s passages idle (.ok m) (.ok bare)
  | fails (e : Error) : Omits s passages idle (.error e) (.error e)
  | absent (r : Except Error Meaning) {name : String} (h : s.lookup.resolve? name = .ok none) :
    Omits s passages idle r (.error (.missingParameter name))

namespace Omits

variable {s : Surroundings} {passages more : List Passage} {idle idle' : Bool}
  {r bare : Except Error Meaning}

theorem inRow {next bareNext : Except Error Meaning} (h : s.Omits passages idle r bare)
    (hnext : s.Omits more idle' next bareNext) :
    s.Omits (passages ++ more) (idle && idle') (Meaning.inRow r next)
      (Meaning.inRow bare bareNext) := by
  cases h with
  | fails e => exact .fails e
  | absent r h => exact .absent _ h
  | agree kept all =>
    cases hnext with
    | fails e => exact .fails e
    | absent next h => exact .absent _ h
    | agree kept' all' =>
      refine .agree ?_ ?_
      · rw [Passage.kept_append, Bool.not_and]
        exact kept.append kept'
      · rw [Passage.pieces_append, Bool.not_and]
        exact all.append all'

theorem taken (h : s.Omits passages idle r bare) (branch bareBranch : NodeId) :
    s.Omits passages false (r.map (.taken branch)) (bare.map (.taken bareBranch)) := by
  cases h with
  | fails e => exact .fails e
  | absent r h => exact .absent _ h
  | agree kept all => exact .agree ⟨kept.pieces, rfl, kept.absent⟩ ⟨all.pieces, rfl, all.absent⟩

theorem passedOver (h : s.Omits passages idle r bare) (branch bareBranch : NodeId) :
    s.Omits passages idle (r.map (.passedOver branch)) (bare.map (.passedOver bareBranch)) := by
  cases h with
  | fails e => exact .fails e
  | absent r h => exact .absent _ h
  | agree kept all =>
    exact .agree ⟨kept.pieces, kept.live, kept.absent⟩ ⟨all.pieces, all.live, all.absent⟩

theorem choose {condition : String} {yes no bareYes bareNo : Except Error Meaning}
    (hyes : s.Omits passages false yes bareYes) (hno : s.Omits more idle no bareNo) :
    s.Omits (s.pick condition passages more []) (s.pick condition false idle true)
      (s.choose condition yes no) (s.choose condition bareYes bareNo) := by
  unfold Surroundings.choose pick
  cases s.holds condition with
  | error e => exact .fails e
  | ok b =>
    cases b with
    | true => exact hyes
    | false => exact hno

/-- Without its blocks a part of a tree has no place where a name may be absent. -/
theorem resolved (optional : Bool) (name : String) (pieces : Value → List Piece) :
    s.Omits (s.passages name pieces) (!s.lookup.resolves name) (s.resolved optional name pieces)
      (s.resolved false name pieces) := by
  unfold Surroundings.resolved Surroundings.passages Lookup.resolves
  rw [← Lookup.resolve?_eq_given]
  cases hvalue : s.lookup.resolve? name with
  | error fault => exact .fails _
  | ok found =>
    cases found with
    | none => exact .absent _ hvalue
    | some v =>
      exact .agree ⟨(Passage.kept_ofPieces _).symm, rfl, rfl⟩
        ⟨(Passage.pieces_ofPieces _).symm, rfl, rfl⟩

/-- A block in which no name is absent does not fail at its end, and it leaves its passages out if
they are idle. -/
theorem block (h : s.Omits passages idle r bare) :
    s.Omits (if idle then Passage.leaveOut passages else passages) idle (Meaning.block r) bare := by
  cases h with
  | fails e => exact .fails e
  | absent r h => exact .absent _ h
  | @agree m bare kept all =>
    show s.Omits _ idle m.settled _
    unfold Meaning.settled
    rw [kept.live, kept.absent]
    cases idle with
    | false => exact .agree kept all
    | true =>
      refine .agree ⟨(Passage.kept_leaveOut passages).symm, rfl, rfl⟩ ?_
      exact ⟨all.pieces.trans (Passage.pieces_leaveOut passages).symm, all.live, all.absent⟩

end Omits

end Surroundings

section

variable (s : Surroundings)

mutual

/-- What a node comes to with its blocks and without them, from any numbers and whether names may
be absent around it or not. -/
theorem Node.omits :
    ∀ (node : Node) (optional : Bool) (start bareStart : NodeId),
      s.Omits (node.passages s) (node.isIdle s) (node.meaning s optional start)
        (Node.meaningAll s false bareStart node.withoutBlocks)
  | .text content, optional, start, bareStart => .agree ⟨rfl, rfl, rfl⟩ ⟨rfl, rfl, rfl⟩
  | .bind name paren, optional, start, bareStart => by
    rw [Node.withoutBlocks, Node.meaningAll_singleton]
    exact .resolved optional name _
  | .embedded name quoted, optional, start, bareStart => by
    rw [Node.withoutBlocks, Node.meaningAll_singleton]
    exact .resolved optional name _
  | .chain condition position body rest, optional, start, bareStart => by
    rw [Node.withoutBlocks, Node.meaningAll_singleton, Node.meaning, Node.meaning, Node.passages,
      Node.isIdle]
    exact .choose ((Node.omitsAll body optional start bareStart).taken _ _)
      ((Chain.omits rest optional _ _).passedOver _ _)
  | .block body, optional, start, bareStart => by
    rw [Node.withoutBlocks, Node.meaning, Node.passages, Node.isIdle]
    exact (Node.omitsAll body true start bareStart).block

theorem Chain.omits :
    ∀ (chain : Chain) (optional : Bool) (start bareStart : NodeId),
      s.Omits (chain.passages s) (chain.isIdle s) (chain.meaning s optional start)
        (chain.withoutBlocks.meaning s false bareStart)
  | .done, optional, start, bareStart => .agree ⟨rfl, rfl, rfl⟩ ⟨rfl, rfl, rfl⟩
  | .elseIf condition position body rest, optional, start, bareStart => by
    rw [Chain.withoutBlocks, Chain.meaning, Chain.meaning, Chain.passages, Chain.isIdle]
    exact .choose ((Node.omitsAll body optional start bareStart).taken _ _)
      ((Chain.omits rest optional _ _).passedOver _ _)
  | .otherwise position body, optional, start, bareStart => by
    rw [Chain.withoutBlocks, Chain.meaning, Chain.meaning, Chain.passages, Chain.isIdle]
    exact (Node.omitsAll body optional start bareStart).taken _ _

theorem Node.omitsAll :
    ∀ (nodes : List Node) (optional : Bool) (start bareStart : NodeId),
      s.Omits (Node.passagesAll s nodes) (Node.isIdleAll s nodes)
        (Node.meaningAll s optional start nodes)
        (Node.meaningAll s false bareStart (Node.withoutBlocksAll nodes))
  | [], optional, start, bareStart => .agree ⟨rfl, rfl, rfl⟩ ⟨rfl, rfl, rfl⟩
  | node :: rest, optional, start, bareStart => by
    obtain ⟨next, hnext⟩ := Node.meaningAll_append s false node.withoutBlocks
      (Node.withoutBlocksAll rest) bareStart
    rw [Node.withoutBlocksAll, hnext, Node.meaningAll, Node.passagesAll, Node.isIdleAll]
    exact (Node.omits node optional start bareStart).inRow (Node.omitsAll rest optional _ next)

end

end

/-! ## Runs -/

/-- Texts hold no values, so leaving them out takes no value away. -/
theorem Passage.Texts.slots_kept {marks : List Mark} {idle : Bool} {passages : List Passage}
    (h : Texts marks idle passages) :
    Piece.slots (kept passages) = Piece.slots (pieces passages) := by
  induction passages with
  | nil => rfl
  | cons p rest ih =>
    have hrest := ih fun q hq => h q (List.mem_cons_of_mem p hq)
    rw [← List.singleton_append, kept_append, pieces_append, Piece.slots_append,
      Piece.slots_append, hrest]
    congr 1
    obtain ⟨piece, omitted⟩ := p
    cases omitted with
    | false => rfl
    | true =>
      obtain ⟨content, rfl, -⟩ := h _ List.mem_cons_self (.inl rfl)
      rfl

namespace Renderer

/-- Without its optional blocks a tree comes to the same as with them or to an error. The tokens
that build it build the tree without blocks, up to places, when those that bound a block are
dropped. If it can be transformed without its blocks then it can with them: the values are the same,
and from the text only those texts are left out that stand in idle blocks. If it can be transformed
with its blocks then without them it can, too, or a parameter is missing that is absent. -/
theorem result_withoutBlocks {r : Renderer} (hclean : r.settings.clauseCleanup = false)
    (recorded : Bool) (name : String) (t : Tree) (l : Lookup) :
    let passages := t.passages ⟨l, r.evaluator, r.mappers⟩
    let style := r.settings.placeholder
    (∀ tokens : List Token, Tree.ofItems (tokens.map .ok) = .ok t →
      ∃ built : Tree,
        Tree.ofItems ((tokens.filter fun token => !token.kind.boundsBlock).map .ok) = .ok built ∧
        built.erase = t.withoutBlocks.erase) ∧
    (∀ bare, (r.runTree recorded name t.withoutBlocks l).result = .ok bare →
      ∃ whole, (r.runTree recorded name t l).result = .ok whole ∧ whole.binds = bare.binds ∧
        bare.sql = Piece.layOut style 0 (Passage.pieces passages) ∧
        whole.sql = Piece.layOut style 0 (Passage.kept passages) ∧
        ∀ p ∈ passages, p.omitted = true →
          ∃ content, p.piece = .text content ∧ ⟨.text content, none⟩ ∈ t.marks) ∧
    ∀ whole, (r.runTree recorded name t l).result = .ok whole →
      (∃ bare, (r.runTree recorded name t.withoutBlocks l).result = .ok bare) ∨
        ∃ absent, l.resolve? absent = .ok none ∧
          (r.runTree recorded name t.withoutBlocks l).result =
            .error (.missingParameter absent) := by
  intro passages style
  refine ⟨fun tokens htokens => Tree.ofItems_withoutBlocks htokens, ?_⟩
  have htexts := Node.textsAll ⟨l, r.evaluator, r.mappers⟩ t.nodes
  have homits : Surroundings.Omits ⟨l, r.evaluator, r.mappers⟩ passages _
    (t.meaning ⟨l, r.evaluator, r.mappers⟩)
    (t.withoutBlocks.meaning ⟨l, r.evaluator, r.mappers⟩) :=
    Node.omitsAll ⟨l, r.evaluator, r.mappers⟩ t.nodes false 0 0
  rw [result_eq, result_eq]
  generalize t.meaning ⟨l, r.evaluator, r.mappers⟩ = meaning at homits
  generalize t.withoutBlocks.meaning ⟨l, r.evaluator, r.mappers⟩ = bareMeaning at homits
  cases homits with
  | fails e => exact ⟨nofun, nofun⟩
  | absent meaning habsent => exact ⟨nofun, fun whole _ => .inr ⟨_, habsent, rfl⟩⟩
  | @agree m bare kept all =>
    refine ⟨fun statement hbare => ?_, fun whole _ => .inl ⟨_, rfl⟩⟩
    obtain rfl : bare.statement r.settings recorded = statement := Except.ok.inj hbare
    refine ⟨m.statement r.settings recorded, rfl, ?_, ?_, ?_, fun p hp ho => htexts p hp (.inl ho)⟩
    · show Piece.slots m.pieces = Piece.slots bare.pieces
      rw [kept.pieces, all.pieces]
      exact htexts.slots_kept
    · simp [Meaning.statement, hclean, all.pieces, style]
    · simp [Meaning.statement, hclean, kept.pieces, style]

/-- A template with an idle block, a block in a block and a block whose variable may be absent. -/
def pageQuery : Template where
  name := none
  source := "SELECT 1/*BEGIN*/ WHERE a = :a/*BEGIN*/ AND b/*IF n*/ AND c/*END*//*END*//*END*/" ++
    "/*BEGIN*/ LIMIT :m/*END*/"
  tree := ⟨[.text "SELECT 1", .block [.text " WHERE a = ", .bind "a" false,
      .block [.text " AND b", .chain "n" ⟨45, 1, 46⟩ [.text " AND c"] .done]],
    .block [.text " LIMIT ", .bind "m" false]]⟩
  ofSource_source := by with_unfolding_all rfl

/-- Where no variable is absent, the idle block in a live one is left out with its blocks and kept
without them. The parameter that is absent is only missed without its block. -/
theorem result_withoutBlocks_pageQuery :
    let given := (Parameters.ofList [("a", .int 5), ("n", .bool false), ("m", .int 3)]).lookup
    let absent := (Parameters.ofList [("a", .int 5), ("n", .bool false)]).lookup
    let run (t : Tree) (l : Lookup) := (stock.runTree false "" t l).result
    (∃ whole bare, run pageQuery.tree given = .ok whole ∧
        run pageQuery.tree.withoutBlocks given = .ok bare ∧ whole.binds = bare.binds ∧
        whole.sql = "SELECT 1 WHERE a = ? LIMIT ?" ∧
        bare.sql = "SELECT 1 WHERE a = ? AND b LIMIT ?") ∧
      (∃ whole, run pageQuery.tree absent = .ok whole ∧ whole.sql = "SELECT 1 WHERE a = ?") ∧
      ∃ name, absent.resolve? name = .ok none ∧
        run pageQuery.tree.withoutBlocks absent = .error (.missingParameter name) := by
  intro given absent run
  have hgiven : ∃ bare, run pageQuery.tree.withoutBlocks given = .ok bare := ⟨_, rfl⟩
  have habsent : ∃ whole, run pageQuery.tree absent = .ok whole ∧
      whole.sql = "SELECT 1 WHERE a = ?" := ⟨_, rfl, by decide +kernel⟩
  refine ⟨?_, habsent, ?_⟩
  · obtain ⟨bare, hbare⟩ := hgiven
    obtain ⟨whole, hwhole, hbinds, hbareSql, hwholeSql, -⟩ :=
      (result_withoutBlocks rfl false "" pageQuery.tree given).2.1 bare hbare
    refine ⟨whole, bare, hwhole, hbare, hbinds, ?_, ?_⟩
    · rw [hwholeSql]
      decide +kernel
    · rw [hbareSql]
      decide +kernel
  · obtain ⟨whole, hwhole, -⟩ := habsent
    have hbare := (result_withoutBlocks rfl false "" pageQuery.tree absent).2.2 whole hwhole
    refine hbare.resolve_left ?_
    rintro ⟨bare, hbare⟩
    cases hbare

end Renderer

end TwoWaySql
