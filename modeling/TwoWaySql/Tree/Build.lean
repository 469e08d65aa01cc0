import TwoWaySql.Token.Scan
import TwoWaySql.Tree

/-!
# Building trees

A row of tokens becomes a tree if its directives are well nested. The state is a sequence under
construction inside the directives that are open; each open directive keeps the sequence around it.
Tokens may come from anywhere, so every misplaced one is refused here as well.
-/

namespace TwoWaySql.Tree

/-- How deep conditions and optional blocks may be nested. -/
def maxNesting : Nat := 64

/-- A complete branch with a condition. -/
structure ClosedBranch where
  condition : String
  position : Position
  body : List Node

/-- An open directive. `around` is the sequence in front of it, last node first. -/
inductive Frame where
  /-- A branch with a condition; `earlier` are the complete ones before it, latest first. -/
  | branch (earlier : List ClosedBranch) (condition : String) (position : Position)
    (around : List Node)
  /-- The last branch of a chain, without a condition; the complete ones before it, latest first. -/
  | otherwise (latest : ClosedBranch) (earlier : List ClosedBranch) (position : Position)
    (around : List Node)
  | block (position : Position) (around : List Node)

/-- A tree under construction: the innermost sequence, last node first, and the open directives,
innermost first. -/
structure State where
  nodes : List Node
  frames : List Frame

namespace State

def empty : State := ⟨[], []⟩

def append (s : State) (node : Node) : State := { s with nodes := node :: s.nodes }

/-- The state inside a directive that opens at the given position. -/
def enter (s : State) (position : Position) (frame : List Node → Frame) : Except Error State :=
  if s.frames.length < maxNesting then .ok ⟨[], frame s.nodes :: s.frames⟩
  else .error (.structural position (.tooDeep maxNesting))

/-- The node of a chain that ends with `rest`: its branches are given latest first. -/
def closeChain (latest : ClosedBranch) (earlier : List ClosedBranch) (rest : Chain) : Node :=
  match earlier with
  | [] => .chain latest.condition latest.position latest.body rest
  | before :: earlier =>
    closeChain before earlier (.elseIf latest.condition latest.position latest.body rest)

/-- The open branch as a complete one, if the innermost open directive is a branch with a condition:
the branch, those before it, the sequence around the chain and the outer directives. -/
def closeBranch (s : State) (position : Position) (directive : String) :
    Except Error (ClosedBranch × List ClosedBranch × List Node × List Frame) :=
  match s.frames with
  | .branch earlier condition start around :: outer =>
    .ok (⟨condition, start, s.nodes.reverse⟩, earlier, around, outer)
  | .otherwise _ _ _ _ :: _ => .error (.structural position (.alternateAfterElse directive))
  | .block _ _ :: _ | [] => .error (.structural position (.alternateWithoutIf directive))

/-- The state behind a token. -/
def push (s : State) (token : Token) : Except Error State :=
  match token.kind with
  | .text content => .ok (s.append (.text content))
  | .bind name paren => .ok (s.append (.bind name paren))
  | .embedded name quoted => .ok (s.append (.embedded name quoted))
  | .ifThen condition => s.enter token.position (.branch [] condition token.position)
  | .elseIf condition =>
    (s.closeBranch token.position "ELIF").map fun (latest, earlier, around, outer) =>
      ⟨[], .branch (latest :: earlier) condition token.position around :: outer⟩
  | .otherwise =>
    (s.closeBranch token.position "ELSE").map fun (latest, earlier, around, outer) =>
      ⟨[], .otherwise latest earlier token.position around :: outer⟩
  | .endIf =>
    match s.frames with
    | .branch earlier condition start around :: outer =>
      .ok ⟨closeChain ⟨condition, start, s.nodes.reverse⟩ earlier .done :: around, outer⟩
    | .otherwise latest earlier start around :: outer =>
      .ok ⟨closeChain latest earlier (.otherwise start s.nodes.reverse) :: around, outer⟩
    | .block _ _ :: _ | [] => .error (.structural token.position .unmatchedEnd)
  | .beginBlock => s.enter token.position (.block token.position)
  | .endBlock =>
    match s.frames with
    | .block _ around :: outer => .ok ⟨.block s.nodes.reverse :: around, outer⟩
    | _ => .error (.structural token.position .unmatchedEnd)

/-- The tree, if no directive is open any more. A chain that is open is reported where it starts,
not at its latest branch. -/
def finish (s : State) : Except Error Tree :=
  match s.frames with
  | [] => .ok ⟨s.nodes.reverse⟩
  | .branch earlier _ position _ :: _ =>
    let start := (earlier.getLast?.map ClosedBranch.position).getD position
    .error (.structural start (.unterminated "IF"))
  | .otherwise latest earlier _ _ :: _ =>
    let start := (earlier.getLast?.map ClosedBranch.position).getD latest.position
    .error (.structural start (.unterminated "IF"))
  | .block position _ :: _ => .error (.structural position (.unterminated "BEGIN"))

/-- The state behind a row of items: the first error in the row, or the first one that a token
causes, ends it. -/
def pushAll (s : State) : List (Except Error Token) → Except Error State
  | [] => .ok s
  | .error e :: _ => .error e
  | .ok token :: rest =>
    match s.push token with
    | .error e => .error e
    | .ok s => s.pushAll rest

end State

/-- The tree of a row of items. -/
def ofItems (items : List (Except Error Token)) : Except Error Tree :=
  match State.empty.pushAll items with
  | .error e => .error e
  | .ok s => s.finish

/-- The tree of a source. -/
def ofSource (source : String) : Except Error Tree := ofItems (Token.scan source).items

end TwoWaySql.Tree
