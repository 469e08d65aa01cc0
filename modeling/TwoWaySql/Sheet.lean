import TwoWaySql.Render

/-!
# Sheets

A draft may be kept on a sheet with switches: one for the sheet itself and one for each branch that
is open on it. A node is rendered, and text and placeholders reach the draft, only where the
innermost switch is on. An optional block has a sheet of its own, which takes the coverage along
until the two are settled.

Each operation changes a sheet as a whole, and a course keeps the sheets that operations leave
behind, up to an error as well. Nothing in a sheet says that its parts agree or that a switch is on.

`TwoWaySql.Proofs.Courses` shows that rendering on sheets comes to what `Tree.render` says, and
`TwoWaySql.Proofs.Consistency` what holds of every sheet on the way.
-/

namespace TwoWaySql

/-- A draft with switches. -/
structure Sheet where
  draft : Draft
  /-- The switches, that of the innermost open branch first and that of the sheet last. -/
  switches : List Bool

namespace Sheet

/-- The sheet of a statement of which nothing is written. -/
def blank (recorded : Bool) : Sheet := ⟨.blank recorded, [true]⟩

/-- Whether the innermost switch is on. Without a switch a sheet is off. -/
def isOn (x : Sheet) : Bool := x.switches.head?.getD false

/-- A change of the draft, whatever the switches are. -/
def change (x : Sheet) (f : Draft → Draft) : Sheet := { x with draft := f x.draft }

/-! ## Operations -/

def write (x : Sheet) (content : String) : Sheet :=
  if x.isOn then x.change (·.write content) else x

/-- Writes a placeholder for a value. -/
def bind (x : Sheet) (name : String) (v : Value) : Sheet :=
  if x.isOn then x.change (·.bind name v) else x

/-- Opens a branch: its switch is on only if the one before it is. -/
def enter (x : Sheet) (on : Bool) : Sheet := { x with switches := (on && x.isOn) :: x.switches }

/-- Closes the innermost branch. The switch of the sheet itself stays. -/
def leave (x : Sheet) : Sheet :=
  if 1 < x.switches.length then { x with switches := x.switches.tail } else x

/-- The sheet of an optional block on a sheet. -/
def inside (x : Sheet) : Sheet := ⟨x.draft.inside, [x.isOn]⟩

/-- A sheet while an optional block on it has a sheet of its own, where the coverage is. -/
def around (x : Sheet) : Sheet := x.change fun d => { d with coverage := none }

/-- Leaves the sheet of an optional block behind. Events have gone on there. -/
def abandon (x inner : Sheet) : Sheet :=
  x.change fun d => { d with events := inner.draft.events }

/-- Leaves the sheet of an optional block behind and takes the coverage back. -/
def resume (x inner : Sheet) : Sheet :=
  (x.abandon inner).change fun d => { d with coverage := inner.draft.coverage }

/-- Takes over a fragment of an optional block. A placeholder is taken over in any case. -/
def takeOver (f : Fragment) (x : Sheet) : Sheet :=
  match f with
  | .text content => x.write content
  | .placeholder => x.change fun d => { d with fragments := Fragment.push .placeholder d.fragments }

/-- Takes over what is written on the sheet of an optional block. -/
def absorb (x inner : Sheet) : Sheet :=
  (inner.draft.fragments.foldr takeOver (x.change .markLive)).change fun d =>
    { d with binds := inner.draft.binds ++ d.binds }

end Sheet

/-! ## Courses -/

/-- A row of operations. -/
structure Course where
  /-- The sheets that the operations leave behind, in order. -/
  passed : List Sheet
  last : Sheet
  failure : Option Error

namespace Course

/-- One operation, which leads to a sheet. -/
def step (x : Sheet) : Course := ⟨[x], x, none⟩

/-- An operation that fails and leaves the sheet as it is. -/
def failed (x : Sheet) (e : Error) : Course := ⟨[x], x, some e⟩

/-- One operation, which leads to a sheet, and what is done there. -/
def via (x : Sheet) (next : Sheet → Course) : Course :=
  { next x with passed := x :: (next x).passed }

/-- A further course, if there was no failure. -/
def andThen (c : Course) (next : Sheet → Course) : Course :=
  match c.failure with
  | none => { next c.last with passed := c.passed ++ (next c.last).passed }
  | some _ => c

/-- Closes the innermost branch in the end, after a failure as well. -/
def leave (c : Course) : Course := ⟨c.passed ++ [c.last.leave], c.last.leave, c.failure⟩

end Course

namespace Sheet

/-! ## Variables -/

/-- A course that uses the value of a variable. An absent name is an error, unless the sheet is that
of an optional block. -/
def withVariable (x : Sheet) (l : Lookup) (name : String) (use : Value → Sheet → Course) : Course :=
  match l.resolve? name with
  | .error fault => .failed x (.evaluation name fault.message)
  | .ok (some v) => .via (x.change .markLive) (use v)
  | .ok none =>
    if x.draft.optional then .step (x.change (·.noteAbsent name))
    else .failed x (.missingParameter name)

/-- Writes placeholders for the items of a list, with a comma between each two. -/
def bindItems (mappers : List Mapper) (name : String) : List Value → Sheet → Course
  | [], x => .step x
  | [v], x => .step (x.bind name (Mapper.bindAll mappers v))
  | v :: rest, x =>
    .via (x.bind name (Mapper.bindAll mappers v)) fun x =>
      .via (x.write ", ") (bindItems mappers name rest)

/-- Writes placeholders for a value: one for each item of a list, and one for any other value. An
empty list is written as `NULL`. -/
def bindMapped (mappers : List Mapper) (name : String) (v : Value) (x : Sheet) : Course :=
  match v with
  | .list [] => .step (x.write "NULL")
  | .list items => bindItems mappers name items x
  | v => .step (x.bind name v)

/-- Writes placeholders for a value, in parentheses if the dummy was a group. -/
def bindVariable (mappers : List Mapper) (name : String) (paren : Bool) (v : Value) (x : Sheet) :
    Course :=
  let v := Mapper.bindAll mappers v
  if paren then
    (Course.via (x.write "(") (bindMapped mappers name v)).andThen fun x => .step (x.write ")")
  else bindMapped mappers name v x

/-- Writes the text of a value. -/
def embedVariable (mappers : List Mapper) (quoted : Bool) (v : Value) (x : Sheet) : Course :=
  .step (x.write (Mapper.literalAll mappers v quoted))

/-! ## Branches and blocks -/

/-- Renders the body of a branch that is entered. It has a switch of its own. -/
def within (x : Sheet) (branch : NodeId) (outcome : Outcome) (body : Sheet → Course) : Course :=
  .via ((x.change (·.record branch .passed)).change (·.log (.resolvedChain outcome))) fun x =>
    .via (x.change .markLive) fun x => (Course.via (x.enter true) body).leave

/-- Ends an optional block: `inner` is its sheet. -/
def settle (x inner : Sheet) : Course :=
  let x := x.resume inner
  if inner.draft.live then
    match inner.draft.absent with
    | name :: _ => .failed x (.missingParameter name)
    | [] => .step (x.absorb inner)
  else
    .step (x.change
      (·.log (.discardedBlock inner.draft.fragments.length inner.draft.binds.length)))

/-- What is done around an optional block behind its course. Where that failed nothing is
settled. -/
def endBlock (x : Sheet) (inner : Course) : Course :=
  match inner.failure with
  | none => x.settle inner.last
  | some e => .failed (x.abandon inner.last) e

/-- Renders an optional block on a sheet of its own. -/
def block (x : Sheet) (body : Sheet → Course) : Course :=
  let inner := Course.via x.inside body
  .via x.around fun x =>
    { x.endBlock inner with passed := inner.passed ++ (x.endBlock inner).passed }

/-- A course that is taken only where the sheet is on. -/
def whenOn (x : Sheet) (course : Sheet → Course) : Course := if x.isOn then course x else .step x

end Sheet

/-- A course that depends on a condition. Its value has to be a boolean. -/
def Surroundings.decideOn (s : Surroundings) (condition : String) (x : Sheet)
    (next : Bool → Sheet → Course) : Course :=
  match s.evaluator.evaluate condition s.lookup with
  | .error e => .failed x e
  | .ok (.bool b) =>
    next b (if isTold condition then x.change (·.log (s.evaluated condition b)) else x)
  | .ok v => .failed x (.evaluationType condition v.typeName)

/-! ## Trees -/

mutual

/-- Renders a node on a sheet. -/
def Node.renderOn (s : Surroundings) (start : NodeId) : Node → Sheet → Course
  | .text content, x => x.whenOn fun x => .step (x.write content)
  | .bind name paren, x =>
    x.whenOn (·.withVariable s.lookup name (Sheet.bindVariable s.mappers name paren))
  | .embedded name quoted, x =>
    x.whenOn (·.withVariable s.lookup name (Sheet.embedVariable s.mappers quoted))
  | .chain condition _ body rest, x =>
    let id := start + Node.countAll body
    x.whenOn (s.decideOn condition · fun holds x =>
      if holds then x.within id .first (Node.renderAllOn s start body)
      else .via (x.change (·.record id .failed)) (rest.renderOn s (id + 1) 1))
  | .block body, x => x.whenOn (·.block (Node.renderAllOn s start body))

/-- Renders what follows the branches of a chain of which no condition holds. -/
def Chain.renderOn (s : Surroundings) (start : NodeId) (number : Nat) : Chain → Sheet → Course
  | .done, x => .step (x.change (·.log (.resolvedChain .nothing)))
  | .elseIf condition _ body rest, x =>
    let id := start + Node.countAll body
    s.decideOn condition x fun holds x =>
      if holds then x.within id (.elseIf number) (Node.renderAllOn s start body)
      else .via (x.change (·.record id .failed)) (rest.renderOn s (id + 1) (number + 1))
  | .otherwise _ body, x =>
    x.within (start + Node.countAll body) .otherwise (Node.renderAllOn s start body)

def Node.renderAllOn (s : Surroundings) (start : NodeId) : List Node → Sheet → Course
  | [], x => .step x
  | node :: rest, x =>
    (node.renderOn s start x).andThen (Node.renderAllOn s (start + node.count) rest)

end

/-- Renders a tree on a sheet. -/
def Tree.renderOn (s : Surroundings) (t : Tree) (x : Sheet) : Course :=
  .via x (Node.renderAllOn s 0 t.nodes)

end TwoWaySql
