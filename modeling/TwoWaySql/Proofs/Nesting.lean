import TwoWaySql.Proofs.Marks

/-!
# Nesting

What is open behind a token follows from what is open in front of it and from the kind of the token
alone (`TokenKind.nest`). This file

1. shows that the scan goes by that rule (`Token.accept_of_nest`);
2. shows that the marks of a tree are well nested, whatever is open around them
   (`Tree.nestAll_marks`);
3. shows that tokens with the marks of a tree that is not too deep are built into that tree again,
   up to the places of its branches (`Tree.ofItems_of_marks`). As a row of tokens is read without
   looking ahead, each part of the tree is followed through any state and any further items
   (`Node.pushAll_marks`).
-/

namespace TwoWaySql

open Token (Opened Nesting)

/-! ## What is open behind a token -/

/-- The open directives behind a token, innermost first, if it may stand there. -/
def TokenKind.nest : TokenKind → List Opened → Option (List Opened)
  | .text _, around | .bind _ _, around | .embedded _ _, around => some around
  | .ifThen _, around => some (.chain false :: around)
  -- behind `ELSE` a chain takes no further alternative
  | .elseIf _, .chain false :: outer => some (.chain false :: outer)
  | .otherwise, .chain false :: outer => some (.chain true :: outer)
  | .endIf, .chain _ :: outer => some outer
  | .beginBlock, around => some (.block :: around)
  | .endBlock, .block :: outer => some outer
  | _, _ => none

def TokenKind.nestAll : List TokenKind → List Opened → Option (List Opened)
  | [], around => some around
  | kind :: rest, around => (kind.nest around).bind (nestAll rest)

/-- The lexeme that a token is printed as. -/
def TokenKind.lexeme : TokenKind → Lexeme
  | .text content => .text content.toList
  | .bind name paren => .bind name paren
  | .embedded name quoted => .embedded name quoted
  | .ifThen condition => .ifThen condition
  | .elseIf condition => .elseIf "ELIF" condition
  | .otherwise => .otherwise
  | .beginBlock => .beginBlock
  | .endIf | .endBlock => .close

/-- A token that may stand where it stands is accepted by the scan, and opens or closes what its
kind says. -/
theorem Token.accept_of_nest {kind : TokenKind} {nesting : Nesting} {inner : List Opened}
    (h : kind.nest (nesting.map Prod.fst) = some inner) (position : Position) :
    ∃ next : Nesting, accept nesting position kind.lexeme = .ok (kind, next) ∧
      next.map Prod.fst = inner := by
  cases kind with
  | text content =>
    obtain rfl := Option.some.inj h
    refine ⟨nesting, ?_, rfl⟩
    simp [accept, TokenKind.lexeme]
  | bind name paren | embedded name quoted =>
    obtain rfl := Option.some.inj h
    exact ⟨nesting, rfl, rfl⟩
  | ifThen condition =>
    obtain rfl := Option.some.inj h
    exact ⟨(.chain false, position) :: nesting, rfl, rfl⟩
  | beginBlock =>
    obtain rfl := Option.some.inj h
    exact ⟨(.block, position) :: nesting, rfl, rfl⟩
  | elseIf condition | otherwise =>
    obtain _ | ⟨⟨_ | _, start⟩, outer⟩ := nesting
    · cases h
    · next afterElse =>
      cases afterElse <;> cases h
      exact ⟨_, rfl, rfl⟩
    · cases h
  | endIf =>
    obtain _ | ⟨⟨_ | _, start⟩, outer⟩ := nesting
    · cases h
    · cases h
      exact ⟨outer, rfl, rfl⟩
    · cases h
  | endBlock =>
    obtain _ | ⟨⟨_ | _, start⟩, outer⟩ := nesting
    · cases h
    · cases h
    · cases h
      exact ⟨outer, rfl, rfl⟩

/-! ## Trees are well nested -/

namespace TokenKind

theorem nestAll_cons {kind : TokenKind} {around inner : List Opened}
    (h : kind.nest around = some inner) (rest : List TokenKind) :
    nestAll (kind :: rest) around = nestAll rest inner := by
  rw [nestAll, h, Option.bind_some]

end TokenKind

open TokenKind (nestAll nestAll_cons)

mutual

/-- What is open around a node is open behind it. -/
theorem Node.nestAll_marks (around : List Opened) (more : List TokenKind) :
    ∀ node : Node, nestAll (node.marks.map Mark.kind ++ more) around = nestAll more around
  | .text _ | .bind _ _ | .embedded _ _ => nestAll_cons rfl more
  | .chain condition position body rest => by
    rw [Node.marks, Mark.kinds_enclose, nestAll_cons rfl, Node.nestAll_marksAll,
      Chain.nestAll_marks]
  | .block body => by
    rw [Node.marks, Mark.kinds_enclose, nestAll_cons rfl, Node.nestAll_marksAll]
    exact nestAll_cons rfl more

/-- What follows a branch closes its chain. -/
theorem Chain.nestAll_marks (around : List Opened) (more : List TokenKind) :
    ∀ chain : Chain, nestAll (chain.marks.map Mark.kind ++ more) (.chain false :: around) =
      nestAll more around
  | .done => nestAll_cons rfl more
  | .elseIf condition position body rest => by
    rw [Chain.marks, Mark.kinds_enclose, nestAll_cons rfl, Node.nestAll_marksAll,
      Chain.nestAll_marks]
  | .otherwise position body => by
    rw [Chain.marks, Mark.kinds_enclose, nestAll_cons rfl, Node.nestAll_marksAll]
    exact nestAll_cons rfl more

theorem Node.nestAll_marksAll (around : List Opened) (more : List TokenKind) :
    ∀ nodes : List Node, nestAll ((Node.marksAll nodes).map Mark.kind ++ more) around =
      nestAll more around
  | [] => rfl
  | node :: rest => by
    rw [Node.marksAll, List.map_append, List.append_assoc, Node.nestAll_marks,
      Node.nestAll_marksAll]

end

theorem Tree.nestAll_marks (t : Tree) : nestAll (t.marks.map Mark.kind) [] = some [] := by
  have h := Node.nestAll_marksAll [] [] t.nodes
  rwa [List.append_nil] at h

/-! ## Trees without places -/

mutual

/-- The node with all its branches at one place. -/
def Node.erase : Node → Node
  | .text content => .text content
  | .bind name paren => .bind name paren
  | .embedded name quoted => .embedded name quoted
  | .chain condition _ body rest => .chain condition .start (Node.eraseAll body) rest.erase
  | .block body => .block (Node.eraseAll body)

def Chain.erase : Chain → Chain
  | .done => .done
  | .elseIf condition _ body rest => .elseIf condition .start (Node.eraseAll body) rest.erase
  | .otherwise _ body => .otherwise .start (Node.eraseAll body)

def Node.eraseAll : List Node → List Node
  | [] => []
  | node :: rest => node.erase :: Node.eraseAll rest

end

/-- The tree with all its branches at one place: its structure alone. -/
def Tree.erase (t : Tree) : Tree := ⟨Node.eraseAll t.nodes⟩

/-! ## How deep a tree is -/

mutual

/-- How many chains and blocks are nested in a node. -/
def Node.depth : Node → Nat
  | .text _ | .bind _ _ | .embedded _ _ => 0
  | .chain _ _ body rest => max (Node.depthAll body) rest.depth + 1
  | .block body => Node.depthAll body + 1

/-- How many chains and blocks are nested in the further branches of a chain. -/
def Chain.depth : Chain → Nat
  | .done => 0
  | .elseIf _ _ body rest => max (Node.depthAll body) rest.depth
  | .otherwise _ body => Node.depthAll body

def Node.depthAll : List Node → Nat
  | [] => 0
  | node :: rest => max node.depth (Node.depthAll rest)

end

def Tree.depth (t : Tree) : Nat := Node.depthAll t.nodes

/-! ## Building a tree from its marks -/

namespace Tree

open State (closeChain)

theorem pushAll_cons {s next : State} {token : Token} (h : Pushed s token next)
    (items : List (Except Error Token)) : s.pushAll (.ok token :: items) = next.pushAll items := by
  rw [State.pushAll, push_of_pushed h]

theorem pushAll_single {kind : TokenKind} {node : Node}
    (hp : ∀ s position, Pushed s ⟨kind, position⟩ (s.append node)) {tokens : List Token}
    (hk : tokens.map Token.kind = [kind]) (s : State) (more : List (Except Error Token)) :
    s.pushAll (tokens.map .ok ++ more) = (s.append node).pushAll more := by
  obtain ⟨⟨kind, position⟩, rest, rfl, rfl, hr⟩ := List.map_eq_cons_iff.1 hk
  obtain rfl := List.map_eq_nil_iff.1 hr
  exact pushAll_cons (hp s position) more

end Tree

open TwoWaySql.Tree (State ClosedBranch maxNesting Pushed pushAll_cons pushAll_single)
open TwoWaySql.Tree.State (closeChain)

mutual

/-- Tokens with the kinds of a node build that node, inside any directives that leave room. -/
theorem Node.pushAll_marks :
    ∀ (node : Node) (tokens : List Token) (s : State) (more : List (Except Error Token)),
      tokens.map Token.kind = node.marks.map Mark.kind →
      s.frames.length + node.depth ≤ maxNesting →
      ∃ built : Node, built.erase = node.erase ∧
        s.pushAll (tokens.map .ok ++ more) = (s.append built).pushAll more
  | .text content, tokens, s, more, hk, _ => by
    refine ⟨.text content, rfl, pushAll_single ?_ hk s more⟩
    intro s position
    exact .text s content position
  | .bind name paren, tokens, s, more, hk, _ => by
    refine ⟨.bind name paren, rfl, pushAll_single ?_ hk s more⟩
    intro s position
    exact .bind s name paren position
  | .embedded name quoted, tokens, s, more, hk, _ => by
    refine ⟨.embedded name quoted, rfl, pushAll_single ?_ hk s more⟩
    intro s position
    exact .embedded s name quoted position
  | .chain condition start body rest, tokens, s, more, hk, hd => by
    simp only [Node.depth] at hd
    obtain ⟨⟨kind, position⟩, inner, rfl, rfl, hinner⟩ := List.map_eq_cons_iff.1 hk
    rw [List.map_append] at hinner
    obtain ⟨bodyTokens, restTokens, rfl, hbody, hrest⟩ := List.map_eq_append_iff.1 hinner
    have room : s.frames.length < maxNesting := by omega
    -- the body fills a sequence of its own, and the rest closes the chain around it
    obtain ⟨built, hbuilt, hpush⟩ := Node.pushAll_marksAll body bodyTokens
      ⟨[], .branch [] condition position s.nodes :: s.frames⟩ (restTokens.map .ok ++ more) hbody
      (by simp only [List.length_cons]; omega)
    obtain ⟨chain, hchain, hclose⟩ := Chain.pushAll_marks rest restTokens condition position
      built [] s.nodes s.frames more hrest (by omega)
    refine ⟨.chain condition position built chain, ?_, ?_⟩
    · rw [Node.erase, Node.erase, hbuilt, hchain]
    · rw [List.map_cons, List.cons_append, List.map_append, List.append_assoc,
        pushAll_cons (.ifThen s condition position room), hpush, List.append_nil, hclose]
      rfl
  | .block body, tokens, s, more, hk, hd => by
    simp only [Node.depth] at hd
    obtain ⟨⟨kind, position⟩, inner, rfl, rfl, hinner⟩ := List.map_eq_cons_iff.1 hk
    rw [List.map_append] at hinner
    obtain ⟨bodyTokens, endTokens, rfl, hbody, hend⟩ := List.map_eq_append_iff.1 hinner
    obtain ⟨⟨kind, last⟩, none, rfl, rfl, hnone⟩ := List.map_eq_cons_iff.1 hend
    obtain rfl := List.map_eq_nil_iff.1 hnone
    have room : s.frames.length < maxNesting := by omega
    obtain ⟨built, hbuilt, hpush⟩ := Node.pushAll_marksAll body bodyTokens
      ⟨[], .block position s.nodes :: s.frames⟩ (.ok ⟨.endBlock, last⟩ :: more) hbody
      (by simp only [List.length_cons]; omega)
    refine ⟨.block built, ?_, ?_⟩
    · rw [Node.erase, Node.erase, hbuilt]
    · rw [List.map_cons, List.cons_append, List.map_append, List.append_assoc,
        pushAll_cons (.beginBlock s position room)]
      show State.pushAll _ (bodyTokens.map .ok ++ .ok ⟨.endBlock, last⟩ :: more) = _
      rw [hpush, List.append_nil, pushAll_cons (.endBlock _ s.nodes position last s.frames),
        List.reverse_reverse]
      rfl

theorem Chain.pushAll_marks :
    ∀ (chain : Chain) (tokens : List Token) (condition : String) (position : Position)
      (body : List Node) (earlier : List ClosedBranch) (around : List Node)
      (outer : List Tree.Frame) (more : List (Except Error Token)),
      tokens.map Token.kind = chain.marks.map Mark.kind →
      outer.length + 1 + chain.depth ≤ maxNesting →
      ∃ built : Chain, built.erase = chain.erase ∧
        State.pushAll ⟨body.reverse, .branch earlier condition position around :: outer⟩
            (tokens.map .ok ++ more) =
          State.pushAll ⟨closeChain ⟨condition, position, body⟩ earlier built :: around, outer⟩
            more
  | .done, tokens, condition, position, body, earlier, around, outer, more, hk, _ => by
    obtain ⟨⟨kind, last⟩, rest, rfl, rfl, hr⟩ := List.map_eq_cons_iff.1 hk
    obtain rfl := List.map_eq_nil_iff.1 hr
    refine ⟨.done, rfl, ?_⟩
    show State.pushAll _ (.ok ⟨.endIf, last⟩ :: more) = _
    rw [pushAll_cons (.endBranch _ around earlier condition position last outer),
      List.reverse_reverse]
  | .elseIf next start nextBody rest, tokens, condition, position, body, earlier, around, outer,
      more, hk, hd => by
    simp only [Chain.depth] at hd
    obtain ⟨⟨kind, place⟩, inner, rfl, rfl, hinner⟩ := List.map_eq_cons_iff.1 hk
    rw [List.map_append] at hinner
    obtain ⟨bodyTokens, restTokens, rfl, hbody, hrest⟩ := List.map_eq_append_iff.1 hinner
    -- the branch that was open is the latest of the earlier ones from here on
    obtain ⟨built, hbuilt, hpush⟩ := Node.pushAll_marksAll nextBody bodyTokens
      ⟨[], .branch (⟨condition, position, body⟩ :: earlier) next place around :: outer⟩
      (restTokens.map .ok ++ more) hbody (by simp only [List.length_cons]; omega)
    obtain ⟨chain, hchain, hclose⟩ := Chain.pushAll_marks rest restTokens next place built
      (⟨condition, position, body⟩ :: earlier) around outer more hrest (by omega)
    refine ⟨.elseIf next place built chain, ?_, ?_⟩
    · rw [Chain.erase, Chain.erase, hbuilt, hchain]
    · rw [List.map_cons, List.cons_append, List.map_append, List.append_assoc,
        pushAll_cons (.elseIf _ around earlier condition next position place outer),
        List.reverse_reverse, hpush, List.append_nil, hclose]
      rfl
  | .otherwise start lastBody, tokens, condition, position, body, earlier, around, outer, more, hk,
      hd => by
    simp only [Chain.depth] at hd
    obtain ⟨⟨kind, place⟩, inner, rfl, rfl, hinner⟩ := List.map_eq_cons_iff.1 hk
    rw [List.map_append] at hinner
    obtain ⟨bodyTokens, endTokens, rfl, hbody, hend⟩ := List.map_eq_append_iff.1 hinner
    obtain ⟨⟨kind, last⟩, none, rfl, rfl, hnone⟩ := List.map_eq_cons_iff.1 hend
    obtain rfl := List.map_eq_nil_iff.1 hnone
    obtain ⟨built, hbuilt, hpush⟩ := Node.pushAll_marksAll lastBody bodyTokens
      ⟨[], .otherwise ⟨condition, position, body⟩ earlier place around :: outer⟩
      (.ok ⟨.endIf, last⟩ :: more) hbody (by simp only [List.length_cons]; omega)
    refine ⟨.otherwise place built, ?_, ?_⟩
    · rw [Chain.erase, Chain.erase, hbuilt]
    · rw [List.map_cons, List.cons_append, List.map_append, List.append_assoc,
        pushAll_cons (.otherwise _ around earlier condition position place outer),
        List.reverse_reverse]
      show State.pushAll _ (bodyTokens.map .ok ++ .ok ⟨.endIf, last⟩ :: more) = _
      rw [hpush, List.append_nil,
        pushAll_cons (.endOtherwise _ around _ earlier place last outer), List.reverse_reverse]

theorem Node.pushAll_marksAll :
    ∀ (nodes : List Node) (tokens : List Token) (s : State) (more : List (Except Error Token)),
      tokens.map Token.kind = (Node.marksAll nodes).map Mark.kind →
      s.frames.length + Node.depthAll nodes ≤ maxNesting →
      ∃ built : List Node, Node.eraseAll built = Node.eraseAll nodes ∧
        s.pushAll (tokens.map .ok ++ more) =
          State.pushAll ⟨built.reverse ++ s.nodes, s.frames⟩ more
  | [], tokens, s, more, hk, _ => by
    obtain rfl := List.map_eq_nil_iff.1 hk
    exact ⟨[], rfl, rfl⟩
  | node :: rest, tokens, s, more, hk, hd => by
    simp only [Node.depthAll] at hd
    rw [Node.marksAll, List.map_append] at hk
    obtain ⟨nodeTokens, restTokens, rfl, hnode, hrest⟩ := List.map_eq_append_iff.1 hk
    obtain ⟨built, hbuilt, hpush⟩ := Node.pushAll_marks node nodeTokens s
      (restTokens.map .ok ++ more) hnode (by omega)
    obtain ⟨others, hothers, hpushRest⟩ := Node.pushAll_marksAll rest restTokens (s.append built)
      more hrest (by simp only [Tree.State.append]; omega)
    refine ⟨built :: others, ?_, ?_⟩
    · rw [Node.eraseAll, Node.eraseAll, hbuilt, hothers]
    · rw [List.map_append, List.append_assoc, hpush, hpushRest, List.reverse_cons,
        List.append_assoc]
      rfl

end

/-- Tokens with the kinds of a tree build that tree, if it is not too deep. -/
theorem Tree.ofItems_of_marks {t : Tree} {tokens : List Token}
    (hk : tokens.map Token.kind = t.marks.map Mark.kind) (hd : t.depth ≤ maxNesting) :
    ∃ built : Tree, ofItems (tokens.map .ok) = .ok built ∧ built.erase = t.erase := by
  have hroom : State.empty.frames.length + Node.depthAll t.nodes ≤ maxNesting := by
    show 0 + t.depth ≤ maxNesting
    omega
  obtain ⟨nodes, hnodes, hpush⟩ := Node.pushAll_marksAll t.nodes tokens State.empty [] hk hroom
  rw [List.append_nil] at hpush
  refine ⟨⟨nodes⟩, ?_, ?_⟩
  · unfold ofItems
    rw [hpush]
    show Except.ok (Tree.mk (nodes.reverse ++ []).reverse) = _
    rw [List.append_nil, List.reverse_reverse]
  · exact congrArg Tree.mk hnodes

end TwoWaySql
