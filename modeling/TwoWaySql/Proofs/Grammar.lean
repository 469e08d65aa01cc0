import TwoWaySql.Proofs.Validation

/-!
# The grammar of token rows

A row of tokens is a template if it can be derived from

    sequence   = node*
    node       = text | variable | IF sequence alternates | BEGIN sequence END
    alternates = END | ELIF sequence alternates | ELSE sequence END

with a limit on how deep the nodes stand inside each other (`TokenKind.Derives`). Trees and
derivations are the same thing: the marks of a tree within the limit are derived, and each row that
is derived is the marks of such a tree. Building a tree therefore succeeds on the rows of the
grammar and on no others, and keeps every token (`Tree.ofItems_grammar`).
-/

namespace TwoWaySql

/-- The parts of a template that the grammar has rules for. -/
inductive Phrase where
  | sequence
  | node
  /-- What follows the first branch of a chain, with the end of the chain. -/
  | alternates
  deriving DecidableEq, Repr

namespace TokenKind

/-- The rows that the grammar derives for a phrase, with at most `limit` conditions and blocks
inside each other. -/
inductive Derives : (limit : Nat) → Phrase → List TokenKind → Prop
  | nil {limit : Nat} : Derives limit .sequence []
  | cons {limit : Nat} {kinds rest : List TokenKind} (first : Derives limit .node kinds)
    (others : Derives limit .sequence rest) : Derives limit .sequence (kinds ++ rest)
  | text {limit : Nat} (content : String) : Derives limit .node [.text content]
  | bind {limit : Nat} (name : String) (paren : Bool) : Derives limit .node [.bind name paren]
  | embedded {limit : Nat} (name : String) (quoted : Bool) :
    Derives limit .node [.embedded name quoted]
  | chain {limit : Nat} {body rest : List TokenKind} (condition : String)
    (inner : Derives limit .sequence body) (alternates : Derives limit .alternates rest) :
    Derives (limit + 1) .node (.ifThen condition :: (body ++ rest))
  | block {limit : Nat} {body : List TokenKind} (inner : Derives limit .sequence body) :
    Derives (limit + 1) .node (.beginBlock :: (body ++ [.endBlock]))
  | endIf {limit : Nat} : Derives limit .alternates [.endIf]
  | elseIf {limit : Nat} {body rest : List TokenKind} (condition : String)
    (inner : Derives limit .sequence body) (alternates : Derives limit .alternates rest) :
    Derives limit .alternates (.elseIf condition :: (body ++ rest))
  | otherwise {limit : Nat} {body : List TokenKind} (inner : Derives limit .sequence body) :
    Derives limit .alternates (.otherwise :: (body ++ [.endIf]))

/-- A row of tokens that makes up a template. -/
def WellNested (kinds : List TokenKind) : Prop := Derives Tree.maxNesting .sequence kinds

end TokenKind

open TokenKind (Derives WellNested)

/-! ## Trees are derived -/

mutual

theorem Node.derives {limit : Nat} : ∀ node : Node, node.depth ≤ limit →
    Derives limit .node (node.marks.map Mark.kind)
  | .text content, _ => .text content
  | .bind name paren, _ => .bind name paren
  | .embedded name quoted, _ => .embedded name quoted
  | .chain condition position body rest, h => by
    rw [Node.depth] at h
    obtain _ | limit := limit
    · omega
    · rw [Node.marks, List.map_cons, List.map_append]
      exact .chain condition (Node.derivesAll body (by omega)) (Chain.derives rest (by omega))
  | .block body, h => by
    rw [Node.depth] at h
    obtain _ | limit := limit
    · omega
    · rw [Node.marks, List.map_cons, List.map_append]
      exact .block (Node.derivesAll body (by omega))

theorem Chain.derives {limit : Nat} : ∀ chain : Chain, chain.depth ≤ limit →
    Derives limit .alternates (chain.marks.map Mark.kind)
  | .done, _ => .endIf
  | .elseIf condition position body rest, h => by
    rw [Chain.depth] at h
    rw [Chain.marks, List.map_cons, List.map_append]
    exact .elseIf condition (Node.derivesAll body (by omega)) (Chain.derives rest (by omega))
  | .otherwise position body, h => by
    rw [Chain.depth] at h
    rw [Chain.marks, List.map_cons, List.map_append]
    exact .otherwise (Node.derivesAll body h)

theorem Node.derivesAll {limit : Nat} : ∀ nodes : List Node, Node.depthAll nodes ≤ limit →
    Derives limit .sequence ((Node.marksAll nodes).map Mark.kind)
  | [], _ => .nil
  | node :: rest, h => by
    rw [Node.depthAll] at h
    rw [Node.marksAll, List.map_append]
    exact .cons (Node.derives node (by omega)) (Node.derivesAll rest (by omega))

end

/-! ## What is derived is a tree -/

/-- The row is that of a part of a tree which the limit allows. -/
def Phrase.IsSpelled (limit : Nat) (kinds : List TokenKind) : Phrase → Prop
  | sequence => ∃ nodes, Node.depthAll nodes ≤ limit ∧
      (Node.marksAll nodes).map Mark.kind = kinds
  | node => ∃ node : Node, node.depth ≤ limit ∧ node.marks.map Mark.kind = kinds
  | alternates => ∃ chain : Chain, chain.depth ≤ limit ∧ chain.marks.map Mark.kind = kinds

theorem TokenKind.Derives.isSpelled {limit : Nat} {phrase : Phrase} {kinds : List TokenKind}
    (h : Derives limit phrase kinds) : phrase.IsSpelled limit kinds := by
  induction h with
  | nil => exact ⟨[], Nat.zero_le _, rfl⟩
  | cons _ _ hfirst hothers =>
    obtain ⟨node, hnode, rfl⟩ := hfirst
    obtain ⟨nodes, hnodes, rfl⟩ := hothers
    refine ⟨node :: nodes, ?_, ?_⟩
    · rw [Node.depthAll]
      omega
    · rw [Node.marksAll, List.map_append]
  | text content => exact ⟨.text content, Nat.zero_le _, rfl⟩
  | bind name paren => exact ⟨.bind name paren, Nat.zero_le _, rfl⟩
  | embedded name quoted => exact ⟨.embedded name quoted, Nat.zero_le _, rfl⟩
  | chain condition _ _ hinner halternates =>
    obtain ⟨body, hbody, rfl⟩ := hinner
    obtain ⟨rest, hrest, rfl⟩ := halternates
    refine ⟨.chain condition .start body rest, ?_, ?_⟩
    · rw [Node.depth]
      omega
    · rw [Node.marks, List.map_cons, List.map_append]
  | block _ hinner =>
    obtain ⟨body, hbody, rfl⟩ := hinner
    refine ⟨.block body, ?_, ?_⟩
    · rw [Node.depth]
      omega
    · rw [Node.marks, List.map_cons, List.map_append]
      rfl
  | endIf => exact ⟨.done, Nat.zero_le _, rfl⟩
  | elseIf condition _ _ hinner halternates =>
    obtain ⟨body, hbody, rfl⟩ := hinner
    obtain ⟨rest, hrest, rfl⟩ := halternates
    refine ⟨.elseIf condition .start body rest, ?_, ?_⟩
    · rw [Chain.depth]
      omega
    · rw [Chain.marks, List.map_cons, List.map_append]
  | otherwise _ hinner =>
    obtain ⟨body, hbody, rfl⟩ := hinner
    refine ⟨.otherwise .start body, hbody, ?_⟩
    rw [Chain.marks, List.map_cons, List.map_append]
    rfl

/-- The rows of the grammar are those of the trees that are not too deep. -/
theorem TokenKind.wellNested_iff_exists_tree {kinds : List TokenKind} :
    WellNested kinds ↔
      ∃ t : Tree, t.depth ≤ Tree.maxNesting ∧ t.marks.map Mark.kind = kinds := by
  constructor
  · intro h
    obtain ⟨nodes, hdepth, hkinds⟩ := h.isSpelled
    exact ⟨⟨nodes⟩, hdepth, hkinds⟩
  · rintro ⟨t, hdepth, rfl⟩
    exact Node.derivesAll t.nodes hdepth

/-! ## Rows of items -/

namespace Tree

theorem pushAll_append (s : State) (items more : List (Except Error Token)) :
    s.pushAll (items ++ more) = (s.pushAll items).bind fun inner => inner.pushAll more := by
  induction items generalizing s with
  | nil => rfl
  | cons item rest ih =>
    cases item with
    | error e => rfl
    | ok token =>
      rw [List.cons_append, State.pushAll, State.pushAll]
      cases s.push token with
      | error e => rfl
      | ok next => exact ih next

/-- Items that build something are tokens. -/
theorem exists_tokens {s last : State} {items : List (Except Error Token)}
    (h : s.pushAll items = .ok last) : ∃ tokens : List Token, items = tokens.map .ok := by
  induction items generalizing s with
  | nil => exact ⟨[], rfl⟩
  | cons item rest ih =>
    cases item with
    | error e => cases h
    | ok token =>
      rw [State.pushAll] at h
      split at h
      · cases h
      · obtain ⟨tokens, rfl⟩ := ih h
        exact ⟨token :: tokens, rfl⟩

theorem ofItems_ok {items : List (Except Error Token)} {t : Tree} (h : ofItems items = .ok t) :
    ∃ s, State.empty.pushAll items = .ok s ∧ s.frames = [] ∧ t = ⟨s.nodes.reverse⟩ := by
  unfold ofItems at h
  split at h
  · cases h
  · next s hs => exact ⟨s, hs, finish_ok h⟩

/-- No token of the row is refused. -/
def Accepts (tokens : List Token) : Prop :=
  ∃ s, State.empty.pushAll (tokens.map .ok) = .ok s

/-- The token that closes an open directive. -/
def Frame.closing : Frame → Token
  | .branch _ _ _ _ | .otherwise _ _ _ _ => ⟨.endIf, .start⟩
  | .block _ _ => ⟨.endBlock, .start⟩

/-- Whatever is open can be closed. -/
theorem exists_closed (nodes : List Node) (frames : List Frame) :
    ∃ last, State.pushAll ⟨nodes, frames⟩ ((frames.map Frame.closing).map .ok) =
      .ok ⟨last, []⟩ := by
  induction frames generalizing nodes with
  | nil => exact ⟨nodes, rfl⟩
  | cons frame outer ih => cases frame <;> exact ih _

/-- A tree is built from the rows of the grammar and from no others. -/
theorem ofItems_iff_wellNested {tokens : List Token} :
    (∃ t, ofItems (tokens.map .ok) = .ok t) ↔ WellNested (tokens.map Token.kind) := by
  have hkind : Mark.kind ∘ Token.mark = Token.kind := rfl
  rw [TokenKind.wellNested_iff_exists_tree]
  constructor
  · rintro ⟨t, ht⟩
    refine ⟨t, depth_le_of_ofItems ht, ?_⟩
    rw [marks_of_ofItems ht, List.map_map, hkind]
  · rintro ⟨t, hdepth, hkinds⟩
    obtain ⟨built, hbuilt, -⟩ := ofItems_of_marks hkinds.symm hdepth
    exact ⟨built, hbuilt⟩

/-- No token is refused in the rows that the grammar can continue, and in no others. -/
theorem accepts_iff {tokens : List Token} :
    Accepts tokens ↔ ∃ more, WellNested (tokens.map Token.kind ++ more) := by
  constructor
  · rintro ⟨s, hs⟩
    obtain ⟨last, hlast⟩ := exists_closed s.nodes s.frames
    let closing := s.frames.map Frame.closing
    have hpush : State.empty.pushAll ((tokens ++ closing).map .ok) = .ok ⟨last, []⟩ := by
      rw [List.map_append, pushAll_append, hs]
      exact hlast
    have hclosed : ofItems ((tokens ++ closing).map .ok) = .ok ⟨last.reverse⟩ := by
      rw [ofItems, hpush]
      rfl
    have hwell := ofItems_iff_wellNested.1 ⟨_, hclosed⟩
    rw [List.map_append] at hwell
    exact ⟨_, hwell⟩
  · rintro ⟨more, hwell⟩
    let others : List Token := more.map fun kind => ⟨kind, .start⟩
    have hkinds : (tokens ++ others).map Token.kind = tokens.map Token.kind ++ more := by
      rw [List.map_append, List.map_map]
      exact congrArg _ (List.map_id more)
    rw [← hkinds] at hwell
    obtain ⟨t, ht⟩ := ofItems_iff_wellNested.2 hwell
    obtain ⟨last, hlast, -⟩ := ofItems_ok ht
    rw [List.map_append, pushAll_append] at hlast
    cases hs : State.empty.pushAll (tokens.map .ok) with
    | ok s => exact ⟨s, hs⟩
    | error e =>
      rw [hs] at hlast
      cases hlast

/-- A tree is built from the rows of the grammar and from no others, it has the marks of its
tokens, and an error in a row is handed on if no token in front of it is refused. -/
theorem ofItems_grammar (items : List (Except Error Token)) :
    ((∃ t, ofItems items = .ok t) ↔
        ∃ tokens : List Token, items = tokens.map .ok ∧ WellNested (tokens.map Token.kind)) ∧
      (∀ t, ofItems items = .ok t →
        ∃ tokens : List Token, items = tokens.map .ok ∧ t.marks = tokens.map Token.mark) ∧
      ∀ tokens e rest, items = tokens.map .ok ++ .error e :: rest → Accepts tokens →
        ofItems items = .error e := by
  have htokens {t : Tree} (ht : ofItems items = .ok t) :
      ∃ tokens : List Token, items = tokens.map .ok := by
    obtain ⟨s, hs, -⟩ := ofItems_ok ht
    exact exists_tokens hs
  refine ⟨⟨?_, ?_⟩, ?_, ?_⟩
  · rintro ⟨t, ht⟩
    obtain ⟨tokens, rfl⟩ := htokens ht
    exact ⟨tokens, rfl, ofItems_iff_wellNested.1 ⟨t, ht⟩⟩
  · rintro ⟨tokens, rfl, hwell⟩
    exact ofItems_iff_wellNested.2 hwell
  · intro t ht
    obtain ⟨tokens, rfl⟩ := htokens ht
    exact ⟨tokens, rfl, marks_of_ofItems ht⟩
  · rintro tokens e rest rfl ⟨s, hs⟩
    rw [ofItems, pushAll_append, hs]
    rfl

/-- A chain in a block, and a row that breaks off inside of it. -/
theorem ofItems_grammar_block :
    let place : Position := ⟨9, 1, 10⟩
    let tokens : List Token := [⟨.beginBlock, .start⟩, ⟨.text "a", .start⟩, ⟨.ifThen "c", place⟩,
      ⟨.bind "n" true, .start⟩, ⟨.otherwise, place⟩, ⟨.endIf, .start⟩, ⟨.endBlock, .start⟩]
    let tree : Tree := ⟨[.block [.text "a",
      .chain "c" place [.bind "n" true] (.otherwise place [])]]⟩
    let e : Error := .structural place .unmatchedEnd
    WellNested (tokens.map Token.kind) ∧ tree.marks = tokens.map Token.mark ∧
      ofItems ((tokens.take 4).map .ok ++ [.error e, .ok ⟨.endBlock, place⟩]) = .error e := by
  intro place tokens tree e
  have hbuilt : ofItems (tokens.map .ok) = .ok tree := rfl
  have hsame {others : List Token}
      (h : tokens.map (Except.ok : Token → Except Error Token) = others.map .ok) :
      tokens = others :=
    (List.map_inj_right fun _ _ => Except.ok.inj).1 h
  obtain ⟨hiff, hmarks, -⟩ := ofItems_grammar (tokens.map .ok)
  obtain ⟨others, hothers, hwell⟩ := hiff.1 ⟨tree, hbuilt⟩
  obtain ⟨same, hsame', htree⟩ := hmarks tree hbuilt
  obtain rfl := hsame hothers
  obtain rfl := hsame hsame'
  have hopen : Accepts (tokens.take 4) := ⟨_, rfl⟩
  exact ⟨hwell, htree, (ofItems_grammar _).2.2 (tokens.take 4) e _ rfl hopen⟩

end Tree

end TwoWaySql
