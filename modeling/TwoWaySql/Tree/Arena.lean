import TwoWaySql.Render
import TwoWaySql.Tree.Build
import TwoWaySql.Tree.Contents
import TwoWaySql.Tree.Listing

/-!
# Arenas

A tree may be kept as the row of its nodes, each of which names its parts by their numbers. A row of
tokens becomes such an arena directly: a node gets the next number when it is complete, and so does
the body of a branch when the branch ends. Walking and rendering an arena are recursions on what is
found under a number, so nothing in an arena says that they find a node or that they end.

`TwoWaySql.Proofs.Arenas` shows that the arena of a row of tokens is the listing of its tree.
-/

namespace TwoWaySql

/-- The numbers of the parts of a node, in the order of the source. -/
def ListedNode.parts : ListedNode → List NodeId
  | .text _ => []
  | .bind _ _ => []
  | .embedded _ _ => []
  | .sequence parts => parts
  | .chain branches otherwise =>
    branches.map ListedBranch.body ++ (otherwise.map ListedElse.body).toList
  | .block parts => parts

/-- Nodes in the order of their numbers. -/
structure Arena where
  nodes : List ListedNode
  /-- The number of the whole template. -/
  root : NodeId
  deriving DecidableEq, Repr

/-- The arena of a tree that is complete. -/
def Tree.arena (t : Tree) : Arena := ⟨t.listing, t.root⟩

namespace Arena

/-! ## Building -/

/-- An open directive. `around` names the nodes of the sequence in front of it. -/
inductive Frame where
  /-- A branch, and the complete ones before it. The last branch of a chain has no condition. -/
  | branch (closed : List ListedBranch) (condition : Option String) (position : Position)
    (around : List NodeId)
  | block (position : Position) (around : List NodeId)
  deriving DecidableEq, Repr

/-- An arena under construction: the nodes that are complete, those of the innermost sequence by
their numbers, and the open directives, innermost first. -/
structure State where
  nodes : List ListedNode
  parts : List NodeId
  frames : List Frame
  deriving DecidableEq, Repr

namespace State

def empty : State := ⟨[], [], []⟩

/-- Adds a node to the innermost sequence. -/
def append (s : State) (node : ListedNode) : State :=
  { s with nodes := s.nodes ++ [node], parts := s.parts ++ [s.nodes.length] }

/-- The state inside a directive that opens at the given position. -/
def enter (s : State) (position : Position) (frame : List NodeId → Frame) : Except Error State :=
  if s.frames.length < Tree.maxNesting then .ok ⟨s.nodes, [], frame s.parts :: s.frames⟩
  else .error (.structural position (.tooDeep Tree.maxNesting))

/-- The state inside a further branch of the innermost chain: the sequence of the branch before it
is complete and becomes its body. -/
def alternate (s : State) (position : Position) (directive : String) (condition : Option String) :
    Except Error State :=
  match s.frames with
  | .branch closed (some before) start around :: outer =>
    let closed := closed ++ [⟨before, s.nodes.length, start⟩]
    .ok ⟨s.nodes ++ [.sequence s.parts], [], .branch closed condition position around :: outer⟩
  | .branch _ none _ _ :: _ => .error (.structural position (.alternateAfterElse directive))
  | .block _ _ :: _ | [] => .error (.structural position (.alternateWithoutIf directive))

/-- The state behind the innermost chain: the sequence of its last branch is complete as well. -/
def endChain (s : State) (position : Position) : Except Error State :=
  let nodes := s.nodes ++ [.sequence s.parts]
  match s.frames with
  | .branch closed (some condition) start around :: outer =>
    .ok (State.append ⟨nodes, around, outer⟩
      (.chain (closed ++ [⟨condition, s.nodes.length, start⟩]) none))
  | .branch closed none start around :: outer =>
    .ok (State.append ⟨nodes, around, outer⟩ (.chain closed (some ⟨s.nodes.length, start⟩)))
  | .block _ _ :: _ | [] => .error (.structural position .unmatchedEnd)

/-- The state behind the innermost block. -/
def endBlock (s : State) (position : Position) : Except Error State :=
  match s.frames with
  | .block _ around :: outer => .ok (State.append ⟨s.nodes, around, outer⟩ (.block s.parts))
  | .branch _ _ _ _ :: _ | [] => .error (.structural position .unmatchedEnd)

/-- The state behind a token. -/
def push (s : State) (token : Token) : Except Error State :=
  match token.kind with
  | .text content => .ok (s.append (.text content))
  | .bind name paren => .ok (s.append (.bind name paren))
  | .embedded name quoted => .ok (s.append (.embedded name quoted))
  | .ifThen condition => s.enter token.position (.branch [] (some condition) token.position)
  | .elseIf condition => s.alternate token.position "ELIF" (some condition)
  | .otherwise => s.alternate token.position "ELSE" none
  | .endIf => s.endChain token.position
  | .beginBlock => s.enter token.position (.block token.position)
  | .endBlock => s.endBlock token.position

/-- The arena, if no directive is open any more: the outermost sequence is its last node. -/
def finish (s : State) : Except Error Arena :=
  match s.frames with
  | [] => .ok ⟨s.nodes ++ [.sequence s.parts], s.nodes.length⟩
  | .branch closed _ position _ :: _ =>
    let start := (closed.head?.map ListedBranch.position).getD position
    .error (.structural start (.unterminated "IF"))
  | .block position _ :: _ => .error (.structural position (.unterminated "BEGIN"))

/-- The state behind a row of items: the first error in the row, or the first one that a token
causes, ends it. -/
def pushAll (s : State) : List (Except Error Token) → Except Error State
  | [] => .ok s
  | .error e :: _ => .error e
  | .ok token :: rest =>
    match s.push token with
    | .error e => .error e
    | .ok s => s.pushAll rest

end State

/-- The arena of a row of items. -/
def ofItems (items : List (Except Error Token)) : Except Error Arena :=
  match State.empty.pushAll items with
  | .error e => .error e
  | .ok s => s.finish

/-! ## Walking -/

/-- The nodes that are met on the way down from a node through its parts, each with its number: a
node comes in front of its parts, and a number without a node is passed over. What is met more than
so many levels down is `beyond`. -/
def walk (a : Arena) (beyond : List (ListedNode × NodeId)) :
    (levels : Nat) → NodeId → List (ListedNode × NodeId)
  | 0, _ => beyond
  | levels + 1, id =>
    match a.nodes[id]? with
    | none => []
    | some node => (node, id) :: node.parts.flatMap (a.walk beyond levels)

/-- Names, and behind them that of a variable which is not there yet. -/
def addName (names : List String) : ListedNode → List String
  | .bind name _ | .embedded name _ => if names.contains name then names else names ++ [name]
  | _ => names

/-- The names of the variables among nodes, each where it occurs first. -/
def names (nodes : List ListedNode) : List String := nodes.foldl addName []

/-- The branches of a chain, one by one. -/
def chainBranches : ListedNode → List Branch
  | .chain branches otherwise =>
    branches.mapIdx (fun number branch =>
      ⟨branch.body, if number = 0 then .ifThen else .elseIf, some branch.condition,
        branch.position⟩) ++
      (otherwise.map fun last => ⟨last.body, .otherwise, none, last.position⟩).toList
  | _ => []

end Arena

/-- The order of positions: the offset counts first, then the line and the column. -/
def Position.order : Position → Position → Ordering :=
  compareLex (compareOn Position.offset)
    (compareLex (compareOn Position.line) (compareOn Position.column))

/-- The branches of the chains among nodes, in the order of their positions. -/
def Arena.branches (nodes : List ListedNode) : List Branch :=
  (nodes.flatMap chainBranches).mergeSort fun b c => (b.position.order c.position).isLE

/-! ## Rendering -/

section

variable (s : Surroundings) (part : NodeId → Draft → Progress)

/-- Renders parts one after the other. -/
def Arena.renderParts : List NodeId → Draft → Progress
  | [], d => .done d
  | id :: rest, d => (part id d).andThen (Arena.renderParts rest)

/-- Renders what is left of a chain; `number` is the number of the next branch. -/
def Arena.renderBranches (otherwise : Option ListedElse) :
    (number : Nat) → List ListedBranch → Draft → Progress
  | number, branch :: rest, d =>
    s.decide branch.condition d fun holds d =>
      if holds then
        part branch.body (d.enter branch.body (if number = 0 then .first else .elseIf number))
      else Arena.renderBranches otherwise (number + 1) rest (d.record branch.body .failed)
  | _, [], d =>
    match otherwise with
    | some last => part last.body (d.enter last.body .otherwise)
    | none => .done (d.log (.resolvedChain .nothing))

/-- Renders a node, given how its parts are rendered. -/
def ListedNode.render : ListedNode → Draft → Progress
  | .text content, d => .done (d.write content)
  | .bind name paren, d => d.withVariable s.lookup name (Draft.bindVariable s.mappers name paren)
  | .embedded name quoted, d => d.withVariable s.lookup name (Draft.embedVariable s.mappers quoted)
  | .sequence parts, d => Arena.renderParts part parts d
  | .chain branches otherwise, d => Arena.renderBranches s part otherwise 0 branches d
  | .block parts, d => (Arena.renderParts part parts d.inside).andThen d.settle

end

/-- Renders what is found under a number. A number without a node renders nothing, and what is
rendered more than so many levels down comes to what `beyond` says. -/
def Arena.render (a : Arena) (s : Surroundings) (beyond : Draft → Progress) :
    (levels : Nat) → NodeId → Draft → Progress
  | 0, _, d => beyond d
  | levels + 1, id, d =>
    match a.nodes[id]? with
    | none => .done d
    | some node => node.render s (a.render s beyond levels) d

end TwoWaySql
