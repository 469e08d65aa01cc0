import TwoWaySql.Error
import TwoWaySql.Event
import TwoWaySql.Lookup
import TwoWaySql.Mapper
import TwoWaySql.Statement

/-!
# Drafts

A draft is a statement under construction. Inside an optional block a draft of its own is kept: the
names that are absent there are noted instead of being errors, and when the block ends it is settled
whether it becomes part of the draft around it (`Draft.settle`).

A step on a draft leaves a `Progress` behind, which is the draft also when the step fails, so that
what happened up to an error is known.
-/

namespace TwoWaySql

/-- A statement under construction. -/
structure Draft where
  /-- The fragments in reverse order. -/
  fragments : List Fragment
  /-- The values of the placeholders in reverse order. -/
  binds : List BoundValue
  /-- What happened to the branches, if it is recorded. -/
  coverage : Option Coverage
  /-- The events in reverse order. -/
  events : List Event
  /-- Whether the draft is that of an optional block. -/
  optional : Bool
  /-- Whether a variable stood for a value or a branch was entered. -/
  live : Bool
  /-- The absent names in the order in which they were met, each once. -/
  absent : List String

/-- What a step on a draft leaves behind. -/
structure Progress where
  draft : Draft
  failure : Option Error

namespace Progress

def done (d : Draft) : Progress := ⟨d, none⟩

def failed (d : Draft) (e : Error) : Progress := ⟨d, some e⟩

/-- A further step, if there was no failure. -/
def andThen (p : Progress) (step : Draft → Progress) : Progress :=
  match p.failure with
  | none => step p.draft
  | some _ => p

@[simp]
theorem done_andThen (d : Draft) (step : Draft → Progress) : (done d).andThen step = step d := rfl

@[simp]
theorem failed_andThen (d : Draft) (e : Error) (step : Draft → Progress) :
    (failed d e).andThen step = failed d e := rfl

end Progress

namespace Draft

/-- The draft of a statement of which nothing is written. -/
def blank (recorded : Bool) : Draft where
  fragments := []
  binds := []
  coverage := if recorded then some .empty else none
  events := []
  optional := false
  live := false
  absent := []

def write (d : Draft) (content : String) : Draft :=
  { d with fragments := Fragment.push (.text content) d.fragments }

/-- Writes a placeholder for a value. -/
def bind (d : Draft) (name : String) (v : Value) : Draft :=
  { d with
    fragments := Fragment.push .placeholder d.fragments
    binds := ⟨name, v⟩ :: d.binds }

def log (d : Draft) (e : Event) : Draft := { d with events := e :: d.events }

def record (d : Draft) (branch : NodeId) (state : BranchState) : Draft :=
  { d with coverage := d.coverage.map (·.record branch state) }

/-- Keeps the optional block of the draft from being discarded. -/
def markLive (d : Draft) : Draft := { d with live := true }

/-- Notes an absent name. -/
def noteAbsent (d : Draft) (name : String) : Draft :=
  if d.absent.contains name then d else { d with absent := d.absent ++ [name] }

/-! ## Variables -/

/-- A step that uses the value of a variable. An absent name is an error, unless the draft is that
of an optional block. -/
def withVariable (d : Draft) (l : Lookup) (name : String) (use : Value → Draft → Draft) :
    Progress :=
  match l.resolve? name with
  | .error fault => .failed d (.evaluation name fault.message)
  | .ok (some v) => .done (use v d.markLive)
  | .ok none =>
    if d.optional then .done (d.noteAbsent name) else .failed d (.missingParameter name)

/-- Writes placeholders for the items of a list, with a comma between each two. -/
def bindItems (mappers : List Mapper) (name : String) (d : Draft) : List Value → Draft
  | [] => d
  | [v] => d.bind name (Mapper.bindAll mappers v)
  | v :: rest => bindItems mappers name ((d.bind name (Mapper.bindAll mappers v)).write ", ") rest

/-- Writes placeholders for a value: one for each item of a list, and one for any other value. An
empty list is written as `NULL`. -/
def bindMapped (mappers : List Mapper) (name : String) (v : Value) (d : Draft) : Draft :=
  match v with
  | .list [] => d.write "NULL"
  | .list items => bindItems mappers name d items
  | v => d.bind name v

/-- Writes placeholders for a value, in parentheses if the dummy was a group. -/
def bindVariable (mappers : List Mapper) (name : String) (paren : Bool) (v : Value) (d : Draft) :
    Draft :=
  let v := Mapper.bindAll mappers v
  if paren then (bindMapped mappers name v (d.write "(")).write ")"
  else bindMapped mappers name v d

/-- Writes the text of a value. -/
def embedVariable (mappers : List Mapper) (quoted : Bool) (v : Value) (d : Draft) : Draft :=
  d.write (Mapper.literalAll mappers v quoted)

/-! ## Optional blocks -/

/-- The draft of an optional block inside a draft. Coverage and events go on in it. -/
def inside (d : Draft) : Draft :=
  { d with fragments := [], binds := [], optional := true, live := false, absent := [] }

/-- Ends an optional block: `inner` is its draft. A block that is not live is discarded; a live one
becomes part of the draft around it, unless a name is absent in it. -/
def settle (d inner : Draft) : Progress :=
  let d := { d with coverage := inner.coverage, events := inner.events }
  if inner.live then
    match inner.absent with
    | name :: _ => .failed d (.missingParameter name)
    | [] =>
      .done { d with
        fragments := inner.fragments.foldr Fragment.push d.fragments
        binds := inner.binds ++ d.binds
        live := true }
  else .done (d.log (.discardedBlock inner.fragments.length inner.binds.length))

end Draft

end TwoWaySql
