import TwoWaySql.Renderer

/-!
# What a tree means

Rendering threads one draft through all nodes of a tree, with a draft of its own for each optional
block. The meaning of a node (`Node.meaning`) says without any draft what the node comes to: an
error, or pieces of a statement, whether the node is live, the names that are absent in it and
what happened to its branches. The meaning of a sequence is made of the meanings of its nodes
alone (`Meaning.inRow`), and so is that of a chain or a block. This file defines

1. what a name stands for in a lookup (`Lookup.given`), and what mappers make of a value: the first
   one with an answer decides (`Mapper.firstBind`, `Mapper.firstLiteral`);
2. the pieces of a statement, where a slot is a placeholder together with its value (`Piece`);
3. meanings and how they are put together (`Meaning`);
4. the meaning of nodes, of chains and of trees;
5. the statement that a meaning comes to (`Meaning.statement`).

`TwoWaySql.Proofs.Rendering` shows that rendering gives exactly this.
-/

namespace TwoWaySql

/-! ## What a variable stands for -/

/-- What a name stands for, if it is present. A dotted name is a path, and it is present where the
path leads to a value. Any other name is present if the lookup has it, and stands for null where no
value comes with it. -/
def Lookup.given (l : Lookup) (name : String) : Except PathFault (Option Value) :=
  if '.' ∈ name.toList then l.path? name
  else
    match l.has name, l.get? name with
    | true, some v => .ok (some v)
    | true, none => .ok (some .null)
    | false, _ => .ok none

theorem Lookup.resolve?_eq_given (l : Lookup) (name : String) : l.resolve? name = l.given name := by
  have hdotted : Name.isDotted name = true ↔ '.' ∈ name.toList := List.contains_iff_mem
  unfold resolve? given
  by_cases hname : '.' ∈ name.toList
  · rw [if_pos (hdotted.2 hname), if_pos hname]
  · rw [if_neg (mt hdotted.1 hname), if_neg hname]
    cases l.has name <;> cases l.get? name <;> rfl

namespace Mapper

/-- What is bound for a value: the answer of the first mapper that has one, and the value itself if
none has. -/
def firstBind : List Mapper → Value → Value
  | [], v => v
  | m :: rest, v =>
    match m.toBind v with
    | some w => w
    | none => firstBind rest v

/-- What is embedded for a value: the answer of the first mapper that has one. If none has, it is
the literal of the value where quotes are asked for, and its plain text elsewhere. -/
def firstLiteral (quoted : Bool) : List Mapper → Value → String
  | [], v => if quoted then v.literal else v.text
  | m :: rest, v =>
    match m.toLiteral v with
    | some content => content
    | none => firstLiteral quoted rest v

theorem bindAll_eq_firstBind (mappers : List Mapper) (v : Value) :
    bindAll mappers v = firstBind mappers v := by
  induction mappers with
  | nil => rfl
  | cons m rest ih =>
    rw [firstBind, bindAll, List.findSome?_cons]
    cases m.toBind v with
    | some w => rfl
    | none => exact ih

theorem literalAll_eq_firstLiteral (mappers : List Mapper) (v : Value) (quoted : Bool) :
    literalAll mappers v quoted = firstLiteral quoted mappers v := by
  induction mappers with
  | nil => rfl
  | cons m rest ih =>
    rw [firstLiteral, literalAll, List.findSome?_cons]
    cases m.toLiteral v with
    | some content => rfl
    | none => exact ih

end Mapper

/-! ## Pieces -/

/-- A piece of a statement: a text, or a placeholder together with the value that it stands for. -/
inductive Piece where
  | text (content : String)
  | slot (bound : BoundValue)

namespace Piece

def fragment : Piece → Fragment
  | text content => .text content
  | slot _ => .placeholder

def slots : List Piece → List BoundValue
  | [] => []
  | text _ :: rest => slots rest
  | slot bound :: rest => bound :: slots rest

/-- The text of pieces in a row; `index` is the index of the first slot. -/
def layOut (style : Placeholder) : (index : Nat) → List Piece → String
  | _, [] => ""
  | index, text content :: rest => content ++ layOut style index rest
  | index, slot _ :: rest => style.text index ++ layOut style (index + 1) rest

/-- The pieces of a value that is bound: one slot for each item of a list, with a comma between
each two, and one slot for any other value. An empty list is the text `NULL`. -/
def ofMapped (mappers : List Mapper) (name : String) : Value → List Piece
  | .list [] => [text "NULL"]
  | .list items =>
    (items.map fun v => slot ⟨name, Mapper.firstBind mappers v⟩).intersperse (text ", ")
  | v => [slot ⟨name, v⟩]

/-- The pieces of a bound variable, in parentheses if its dummy was a group. -/
def ofBind (mappers : List Mapper) (name : String) (paren : Bool) (v : Value) : List Piece :=
  let pieces := ofMapped mappers name (Mapper.firstBind mappers v)
  if paren then text "(" :: (pieces ++ [text ")"]) else pieces

def ofEmbedded (mappers : List Mapper) (quoted : Bool) (v : Value) : List Piece :=
  [text (Mapper.firstLiteral quoted mappers v)]

@[simp]
theorem slots_append (pieces more : List Piece) :
    slots (pieces ++ more) = slots pieces ++ slots more := by
  induction pieces with
  | nil => rfl
  | cons p rest ih => cases p <;> simp [slots, ih]

theorem layOut_eq (style : Placeholder) (index : Nat) (pieces : List Piece) :
    layOut style index pieces = Fragment.layOut style index (pieces.map fragment) := by
  induction pieces generalizing index with
  | nil => rfl
  | cons p rest ih => cases p <;> simp [layOut, Fragment.layOut, fragment, ih]

end Piece

/-! ## Meanings -/

/-- What a part of a template comes to. -/
structure Meaning where
  pieces : List Piece
  /-- Whether a variable stood for a value or a branch was entered. -/
  live : Bool
  /-- The names that are absent, in the order in which they are met. -/
  absent : List String
  /-- What happened to the branches, in order. -/
  states : List (NodeId × BranchState)

namespace Meaning

/-- Pieces that make nothing live. -/
def ofPieces (pieces : List Piece) : Meaning := ⟨pieces, false, [], []⟩

def append (m n : Meaning) : Meaning :=
  ⟨m.pieces ++ n.pieces, m.live || n.live, m.absent ++ n.absent, m.states ++ n.states⟩

/-- Two parts in a row: the first error wins. -/
def inRow : Except Error Meaning → Except Error Meaning → Except Error Meaning
  | .error e, _ => .error e
  | .ok _, .error e => .error e
  | .ok m, .ok n => .ok (m.append n)

/-- The body of a branch that is entered. -/
def taken (branch : NodeId) (m : Meaning) : Meaning :=
  { m with live := true, states := (branch, .passed) :: m.states }

/-- What follows a branch whose condition does not hold. -/
def passedOver (branch : NodeId) (m : Meaning) : Meaning :=
  { m with states := (branch, .failed) :: m.states }

/-- The end of an optional block: one that is not live comes to nothing, and in a live one no name
may be absent. -/
def settled (m : Meaning) : Except Error Meaning :=
  if m.live then
    match m.absent with
    | [] => .ok m
    | name :: _ => .error (.missingParameter name)
  else .ok { m with pieces := [], absent := [] }

def block : Except Error Meaning → Except Error Meaning
  | .error e => .error e
  | .ok m => m.settled

def coverage (m : Meaning) : Coverage :=
  m.states.foldl (fun c e => c.record e.1 e.2) .empty

def statement (settings : Settings) (recorded : Bool) (m : Meaning) : Statement :=
  let sql := Piece.layOut settings.placeholder 0 m.pieces
  { sql := if settings.clauseCleanup then Clause.clean sql else sql
    binds := Piece.slots m.pieces
    coverage := if recorded then some m.coverage else none }

theorem inRow_ok {r next : Except Error Meaning} {m : Meaning} (h : inRow r next = .ok m) :
    ∃ x y, r = .ok x ∧ next = .ok y ∧ m = x.append y := by
  cases r with
  | error e => cases h
  | ok x =>
    cases next with
    | error e => cases h
    | ok y => exact ⟨x, y, rfl, rfl, (Except.ok.inj h).symm⟩

theorem map_ok {r : Except Error Meaning} {f : Meaning → Meaning} {m : Meaning}
    (h : r.map f = .ok m) : ∃ x, r = .ok x ∧ m = f x := by
  cases r with
  | error e => cases h
  | ok x => exact ⟨x, rfl, (Except.ok.inj h).symm⟩

/-- A block keeps all of its pieces or none of them. -/
theorem block_ok {r : Except Error Meaning} {n : Meaning} (h : block r = .ok n) :
    ∃ m, r = .ok m ∧ (n = m ∨ n = { m with pieces := [], absent := [] }) := by
  cases r with
  | error e => cases h
  | ok m =>
    refine ⟨m, rfl, ?_⟩
    have hs : m.settled = .ok n := h
    unfold settled at hs
    split at hs
    · split at hs
      · exact .inl (Except.ok.inj hs).symm
      · cases hs
    · exact .inr (Except.ok.inj hs).symm

end Meaning

/-! ## The meaning of nodes -/

namespace Surroundings

/-- A variable: what its value comes to. An absent name is noted where names are `optional`, and an
error elsewhere. -/
def resolved (s : Surroundings) (optional : Bool) (name : String) (pieces : Value → List Piece) :
    Except Error Meaning :=
  match s.lookup.given name with
  | .error fault => .error (.evaluation name fault.message)
  | .ok (some v) => .ok ⟨pieces v, true, [], []⟩
  | .ok none =>
    if optional then .ok ⟨[], false, [name], []⟩ else .error (.missingParameter name)

/-- Whether a condition holds. Its value has to be a boolean. -/
def holds (s : Surroundings) (condition : String) : Except Error Bool :=
  match s.evaluator.evaluate condition s.lookup with
  | .error e => .error e
  | .ok (.bool b) => .ok b
  | .ok v => .error (.evaluationType condition v.typeName)

def choose (s : Surroundings) (condition : String) (yes no : Except Error Meaning) :
    Except Error Meaning :=
  match s.holds condition with
  | .error e => .error e
  | .ok true => yes
  | .ok false => no

theorem resolved_ok {s : Surroundings} {optional : Bool} {name : String}
    {pieces : Value → List Piece} {m : Meaning} (h : s.resolved optional name pieces = .ok m) :
    (∃ v, s.lookup.given name = .ok (some v) ∧ m = ⟨pieces v, true, [], []⟩) ∨
      (s.lookup.given name = .ok none ∧ optional = true ∧ m = ⟨[], false, [name], []⟩) := by
  unfold resolved at h
  split at h
  · cases h
  · next v hv => exact .inl ⟨v, hv, (Except.ok.inj h).symm⟩
  · next hn =>
    split at h
    · next ho => exact .inr ⟨hn, ho, (Except.ok.inj h).symm⟩
    · cases h

theorem choose_ok {s : Surroundings} {condition : String} {yes no : Except Error Meaning}
    {m : Meaning} (h : s.choose condition yes no = .ok m) : yes = .ok m ∨ no = .ok m := by
  unfold choose at h
  split at h
  · cases h
  · exact .inl h
  · exact .inr h

end Surroundings

mutual

/-- The meaning of a node whose numbers start at `start`; `optional` says whether names may be
absent. -/
def Node.meaning (s : Surroundings) (optional : Bool) (start : NodeId) :
    Node → Except Error Meaning
  | .text content => .ok (.ofPieces [.text content])
  | .bind name paren => s.resolved optional name (Piece.ofBind s.mappers name paren)
  | .embedded name quoted => s.resolved optional name (Piece.ofEmbedded s.mappers quoted)
  | .chain condition _ body rest =>
    let id := start + Node.countAll body
    s.choose condition ((Node.meaningAll s optional start body).map (.taken id))
      ((rest.meaning s optional (id + 1)).map (.passedOver id))
  | .block body => Meaning.block (Node.meaningAll s true start body)

/-- The meaning of what follows the branches of a chain of which no condition holds. -/
def Chain.meaning (s : Surroundings) (optional : Bool) (start : NodeId) :
    Chain → Except Error Meaning
  | .done => .ok (.ofPieces [])
  | .elseIf condition _ body rest =>
    let id := start + Node.countAll body
    s.choose condition ((Node.meaningAll s optional start body).map (.taken id))
      ((rest.meaning s optional (id + 1)).map (.passedOver id))
  | .otherwise _ body =>
    (Node.meaningAll s optional start body).map (.taken (start + Node.countAll body))

def Node.meaningAll (s : Surroundings) (optional : Bool) (start : NodeId) :
    List Node → Except Error Meaning
  | [] => .ok (.ofPieces [])
  | node :: rest =>
    Meaning.inRow (node.meaning s optional start)
      (Node.meaningAll s optional (start + node.count) rest)

end

/-- The meaning of a tree. Outside optional blocks no name may be absent. -/
def Tree.meaning (s : Surroundings) (t : Tree) : Except Error Meaning :=
  Node.meaningAll s false 0 t.nodes

end TwoWaySql
