import TwoWaySql.Template

/-!
# Marks

A tree and the row of tokens that it was built from say the same. The marks of a tree
(`Tree.marks`) are its tokens written down again, with the places that the tree keeps: those
where branches start. This file

1. says once what a token does to a tree under construction (`Pushed`, `push_iff`);
2. reads the marks off a tree under construction (`State.marks`), and shows that a token adds
   exactly its own mark (`Pushed.marks`), so that a row of tokens adds its marks (`marks_pushAll`);
3. concludes that a tree has the marks of its tokens (`marks_of_ofItems`), and a template those of
   its source (`Template.marks_eq`).
-/

namespace TwoWaySql

/-- A token, with its place if it starts a branch. -/
structure Mark where
  kind : TokenKind
  place : Option Position
  deriving DecidableEq, Repr

def TokenKind.startsBranch : TokenKind → Bool
  | .ifThen _ | .elseIf _ | .otherwise => true
  | _ => false

def Token.mark (t : Token) : Mark :=
  ⟨t.kind, if t.kind.startsBranch then some t.position else none⟩

/-- The kinds of marks that enclose a row, with further kinds behind them. -/
theorem Mark.kinds_enclose (mark : Mark) (body rest : List Mark) (more : List TokenKind) :
    (mark :: (body ++ rest)).map Mark.kind ++ more =
      mark.kind :: (body.map Mark.kind ++ (rest.map Mark.kind ++ more)) := by
  rw [List.map_cons, List.map_append, List.cons_append, List.append_assoc]

/-! ## The marks of a tree -/

mutual

def Node.marks : Node → List Mark
  | .text content => [⟨.text content, none⟩]
  | .bind name paren => [⟨.bind name paren, none⟩]
  | .embedded name quoted => [⟨.embedded name quoted, none⟩]
  | .chain condition position body rest =>
    ⟨.ifThen condition, some position⟩ :: (Node.marksAll body ++ rest.marks)
  | .block body => ⟨.beginBlock, none⟩ :: (Node.marksAll body ++ [⟨.endBlock, none⟩])

/-- The marks of what follows a branch, with the end of the chain. -/
def Chain.marks : Chain → List Mark
  | .done => [⟨.endIf, none⟩]
  | .elseIf condition position body rest =>
    ⟨.elseIf condition, some position⟩ :: (Node.marksAll body ++ rest.marks)
  | .otherwise position body =>
    ⟨.otherwise, some position⟩ :: (Node.marksAll body ++ [⟨.endIf, none⟩])

def Node.marksAll : List Node → List Mark
  | [] => []
  | node :: rest => node.marks ++ Node.marksAll rest

end

def Tree.marks (t : Tree) : List Mark := Node.marksAll t.nodes

theorem Node.marksAll_append (nodes more : List Node) :
    Node.marksAll (nodes ++ more) = Node.marksAll nodes ++ Node.marksAll more := by
  induction nodes with
  | nil => rfl
  | cons node rest ih => simp [Node.marksAll, ih]

namespace Tree

open State (closeChain)

/-! ## What a token does -/

/-- The token leads from one tree under construction to the next. -/
inductive Pushed : State → Token → State → Prop
  | text (s : State) (content : String) (position : Position) :
    Pushed s ⟨.text content, position⟩ (s.append (.text content))
  | bind (s : State) (name : String) (paren : Bool) (position : Position) :
    Pushed s ⟨.bind name paren, position⟩ (s.append (.bind name paren))
  | embedded (s : State) (name : String) (quoted : Bool) (position : Position) :
    Pushed s ⟨.embedded name quoted, position⟩ (s.append (.embedded name quoted))
  | ifThen (s : State) (condition : String) (position : Position)
    (room : s.frames.length < maxNesting) :
    Pushed s ⟨.ifThen condition, position⟩
      ⟨[], .branch [] condition position s.nodes :: s.frames⟩
  | elseIf (nodes around : List Node) (earlier : List ClosedBranch) (before condition : String)
    (start position : Position) (outer : List Frame) :
    Pushed ⟨nodes, .branch earlier before start around :: outer⟩ ⟨.elseIf condition, position⟩
      ⟨[], .branch (⟨before, start, nodes.reverse⟩ :: earlier) condition position around :: outer⟩
  | otherwise (nodes around : List Node) (earlier : List ClosedBranch) (before : String)
    (start position : Position) (outer : List Frame) :
    Pushed ⟨nodes, .branch earlier before start around :: outer⟩ ⟨.otherwise, position⟩
      ⟨[], .otherwise ⟨before, start, nodes.reverse⟩ earlier position around :: outer⟩
  | endBranch (nodes around : List Node) (earlier : List ClosedBranch) (condition : String)
    (start position : Position) (outer : List Frame) :
    Pushed ⟨nodes, .branch earlier condition start around :: outer⟩ ⟨.endIf, position⟩
      ⟨closeChain ⟨condition, start, nodes.reverse⟩ earlier .done :: around, outer⟩
  | endOtherwise (nodes around : List Node) (latest : ClosedBranch) (earlier : List ClosedBranch)
    (start position : Position) (outer : List Frame) :
    Pushed ⟨nodes, .otherwise latest earlier start around :: outer⟩ ⟨.endIf, position⟩
      ⟨closeChain latest earlier (.otherwise start nodes.reverse) :: around, outer⟩
  | beginBlock (s : State) (position : Position) (room : s.frames.length < maxNesting) :
    Pushed s ⟨.beginBlock, position⟩ ⟨[], .block position s.nodes :: s.frames⟩
  | endBlock (nodes around : List Node) (start position : Position) (outer : List Frame) :
    Pushed ⟨nodes, .block start around :: outer⟩ ⟨.endBlock, position⟩
      ⟨.block nodes.reverse :: around, outer⟩

theorem enter_ok {s s' : State} {position : Position} {frame : List Node → Frame}
    (h : s.enter position frame = .ok s') :
    s.frames.length < maxNesting ∧ s' = ⟨[], frame s.nodes :: s.frames⟩ := by
  unfold State.enter at h
  split at h
  · next room => exact ⟨room, (Except.ok.inj h).symm⟩
  · cases h

/-- An alternative continues an open branch with a condition, and closes that branch. -/
theorem closeBranch_ok {s : State} {position : Position} {directive : String} {α : Type} {a : α}
    {make : ClosedBranch × List ClosedBranch × List Node × List Frame → α}
    (h : (s.closeBranch position directive).map make = .ok a) :
    ∃ earlier condition start around outer,
      s.frames = .branch earlier condition start around :: outer ∧
      a = make (⟨condition, start, s.nodes.reverse⟩, earlier, around, outer) := by
  unfold State.closeBranch at h
  split at h
  · next earlier condition start around outer hf =>
    exact ⟨earlier, condition, start, around, outer, hf, (Except.ok.inj h).symm⟩
  all_goals cases h

theorem pushed_of_push {s s' : State} {token : Token} (h : s.push token = .ok s') :
    Pushed s token s' := by
  obtain ⟨kind, position⟩ := token
  obtain ⟨nodes, frames⟩ := s
  cases kind with
  | text content => exact Except.ok.inj h ▸ .text _ content position
  | bind name paren => exact Except.ok.inj h ▸ .bind _ name paren position
  | embedded name quoted => exact Except.ok.inj h ▸ .embedded _ name quoted position
  | ifThen condition =>
    obtain ⟨room, rfl⟩ := enter_ok h
    exact .ifThen _ condition position room
  | elseIf condition =>
    obtain ⟨earlier, before, start, around, outer, hf, rfl⟩ := closeBranch_ok h
    obtain rfl : frames = _ := hf
    exact .elseIf nodes around earlier before condition start position outer
  | otherwise =>
    obtain ⟨earlier, before, start, around, outer, hf, rfl⟩ := closeBranch_ok h
    obtain rfl : frames = _ := hf
    exact .otherwise nodes around earlier before start position outer
  | endIf =>
    simp only [State.push] at h
    split at h
    · exact Except.ok.inj h ▸ .endBranch ..
    · exact Except.ok.inj h ▸ .endOtherwise ..
    all_goals cases h
  | beginBlock =>
    obtain ⟨room, rfl⟩ := enter_ok h
    exact .beginBlock _ position room
  | endBlock =>
    simp only [State.push] at h
    split at h
    · exact Except.ok.inj h ▸ .endBlock ..
    · cases h

theorem push_of_pushed {s s' : State} {token : Token} (h : Pushed s token s') :
    s.push token = .ok s' := by
  cases h with
  | ifThen s condition position room => simp [State.push, State.enter, room]
  | beginBlock s position room => simp [State.push, State.enter, room]
  | _ => rfl

/-- Pushing a token does what `Pushed` says, and fails otherwise. -/
theorem push_iff {s s' : State} {token : Token} : s.push token = .ok s' ↔ Pushed s token s' :=
  ⟨pushed_of_push, push_of_pushed⟩

/-! ## The marks of a tree under construction -/

/-- The marks of the branches of an open chain, given latest first. -/
def branchMarks : List ClosedBranch → List Mark
  | [] => []
  | [b] => ⟨.ifThen b.condition, some b.position⟩ :: Node.marksAll b.body
  | b :: before :: earlier =>
    branchMarks (before :: earlier) ++
      ⟨.elseIf b.condition, some b.position⟩ :: Node.marksAll b.body

/-- The marks in front of the sequence that an open directive encloses. -/
def Frame.marks : Frame → List Mark
  | .branch earlier condition position around =>
    -- the body of the open branch is not part of the frame yet
    Node.marksAll around.reverse ++ branchMarks (⟨condition, position, []⟩ :: earlier)
  | .otherwise latest earlier position around =>
    Node.marksAll around.reverse ++ branchMarks (latest :: earlier) ++
      [⟨.otherwise, some position⟩]
  | .block _ around => Node.marksAll around.reverse ++ [⟨.beginBlock, none⟩]

def frameMarks : List Frame → List Mark
  | [] => []
  | frame :: outer => frameMarks outer ++ frame.marks

/-- The marks that were read so far. -/
def State.marks (s : State) : List Mark := frameMarks s.frames ++ Node.marksAll s.nodes.reverse

theorem branchMarks_body (condition : String) (position : Position) (body : List Node)
    (earlier : List ClosedBranch) :
    branchMarks (⟨condition, position, body⟩ :: earlier) =
      branchMarks (⟨condition, position, []⟩ :: earlier) ++ Node.marksAll body := by
  cases earlier <;> simp [branchMarks, Node.marksAll]

theorem closeChain_marks (latest : ClosedBranch) (earlier : List ClosedBranch) (rest : Chain) :
    (closeChain latest earlier rest).marks = branchMarks (latest :: earlier) ++ rest.marks := by
  -- closing moves the latest branch into `rest`, so the induction is over the earlier ones
  induction earlier generalizing latest rest with
  | nil => simp [closeChain, Node.marks, branchMarks]
  | cons before earlier ih => simp [closeChain, ih, Chain.marks, branchMarks]

/-- A token adds exactly its own mark. -/
theorem Pushed.marks {s s' : State} {token : Token} (h : Pushed s token s') :
    s'.marks = s.marks ++ [token.mark] := by
  -- the tokens that close a branch turn its open sequence into a body, so these three need
  -- `branchMarks_body`; the others only append
  cases h with
  | endBranch nodes around earlier condition start position outer =>
    simp [State.marks, frameMarks, Frame.marks, Node.marksAll_append, Node.marksAll, Token.mark,
      TokenKind.startsBranch, closeChain_marks, Chain.marks,
      branchMarks_body condition start nodes.reverse]
  | elseIf nodes around earlier before condition start position outer =>
    simp [State.marks, frameMarks, Frame.marks, Node.marksAll, Token.mark,
      TokenKind.startsBranch, branchMarks, branchMarks_body before start nodes.reverse]
  | otherwise nodes around earlier before start position outer =>
    simp [State.marks, frameMarks, Frame.marks, Node.marksAll, Token.mark,
      TokenKind.startsBranch, branchMarks_body before start nodes.reverse]
  | _ =>
    simp [State.marks, State.append, frameMarks, Frame.marks, Node.marksAll_append, Node.marksAll,
      Node.marks, Chain.marks, Token.mark, TokenKind.startsBranch, closeChain_marks, branchMarks]

theorem marks_pushAll {tokens : List Token} {s s' : State}
    (h : s.pushAll (tokens.map .ok) = .ok s') : s'.marks = s.marks ++ tokens.map Token.mark := by
  induction tokens generalizing s with
  | nil =>
    obtain rfl : s = s' := Except.ok.inj h
    simp
  | cons token rest ih =>
    simp only [List.map_cons, State.pushAll] at h
    split at h
    · cases h
    · next next hp =>
      rw [ih h, (pushed_of_push hp).marks, List.map_cons, List.append_assoc, List.singleton_append]

theorem finish_ok {s : State} {t : Tree} (h : s.finish = .ok t) :
    s.frames = [] ∧ t = ⟨s.nodes.reverse⟩ := by
  unfold State.finish at h
  split at h
  · next hf => exact ⟨hf, (Except.ok.inj h).symm⟩
  all_goals cases h

/-- A tree has the marks of its tokens. -/
theorem marks_of_ofItems {tokens : List Token} {t : Tree} (h : ofItems (tokens.map .ok) = .ok t) :
    t.marks = tokens.map Token.mark := by
  unfold ofItems at h
  split at h
  · cases h
  · next s hs =>
    obtain ⟨hf, rfl⟩ := finish_ok h
    have hm := marks_pushAll hs
    rw [State.marks, hf] at hm
    simpa [frameMarks, State.marks, State.empty, Node.marksAll, Tree.marks] using hm

theorem pushAll_error (s : State) (tokens : List Token) (e : Error) :
    ∃ e', s.pushAll (tokens.map .ok ++ [.error e]) = .error e' := by
  induction tokens generalizing s with
  | nil => exact ⟨e, rfl⟩
  | cons token rest ih =>
    simp only [List.map_cons, List.cons_append, State.pushAll]
    cases s.push token with
    | error e' => exact ⟨e', rfl⟩
    | ok next => exact ih next

/-- A source that yields a tree is scanned to its end, and the tree has the marks of its tokens. -/
theorem marks_of_ofSource {source : String} {t : Tree} (h : ofSource source = .ok t) :
    (Token.scan source).failure = none ∧ t.marks = (Token.scan source).tokens.map Token.mark := by
  unfold ofSource Scan.items at h
  cases hf : (Token.scan source).failure with
  | none =>
    rw [hf] at h
    exact ⟨rfl, marks_of_ofItems (by simpa using h)⟩
  | some e =>
    rw [hf] at h
    obtain ⟨e', he⟩ := pushAll_error State.empty (Token.scan source).tokens e
    have hfail : ofItems ((Token.scan source).tokens.map .ok ++ [.error e]) = .error e' := by
      unfold ofItems
      rw [he]
    cases hfail.symm.trans h

end Tree

/-- A template's tree has the marks of the tokens of its source. -/
theorem Template.marks_eq (t : Template) :
    t.tree.marks = (Token.scan t.source).tokens.map Token.mark :=
  (Tree.marks_of_ofSource t.ofSource_source).2

end TwoWaySql
