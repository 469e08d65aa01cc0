import TwoWaySql.Clause.Cleanup
import TwoWaySql.Render
import TwoWaySql.Template

/-!
# Renderers

A renderer turns templates into statements. It holds settings, an evaluator and mappers; nothing in
it changes, so the same renderer, template and lookup always give the same statement. A run yields
the result together with the events that lead to it.
-/

namespace TwoWaySql

/-- What turns templates into statements. -/
structure Renderer where
  settings : Settings
  evaluator : Evaluator
  mappers : List Mapper

/-- The result of a run, and its events in order. -/
structure Run where
  result : Except Error Statement
  events : List Event

namespace Draft

/-- The statement of a finished draft. -/
def statement (d : Draft) (settings : Settings) : Statement :=
  let sql := Fragment.layOut settings.placeholder 0 d.fragments.reverse
  { sql := if settings.clauseCleanup then Clause.clean sql else sql
    binds := d.binds.reverse
    coverage := d.coverage }

end Draft

namespace Renderer

/-- The stock renderer: default settings and the stock evaluator. -/
def stock : Renderer := ⟨{}, .stock [], []⟩

/-- A renderer with one more mapper behind those that it has. -/
def addMapper (r : Renderer) (m : Mapper) : Renderer := { r with mappers := r.mappers ++ [m] }

/-- Transforms a tree; `recorded` says whether branches are recorded, and `name` is what the last
event calls the tree. -/
def runTree (r : Renderer) (recorded : Bool) (name : String) (t : Tree) (l : Lookup) : Run :=
  let p := t.render ⟨l, r.evaluator, r.mappers⟩ (.blank recorded)
  match p.failure with
  | some e => ⟨.error e, p.draft.events.reverse⟩
  | none =>
    let statement := p.draft.statement r.settings
    let event := .transformedTemplate name statement.binds.length
    ⟨.ok statement, (event :: p.draft.events).reverse⟩

/-- Transforms a template; `recorded` says whether branches are recorded. -/
def run (r : Renderer) (recorded : Bool) (t : Template) (l : Lookup) : Run :=
  r.runTree recorded (t.name.getD "") t.tree l

/-- Transforms a template as the settings say. -/
def transform (r : Renderer) (t : Template) (l : Lookup) : Except Error Statement :=
  (r.run r.settings.coverage t l).result

/-- Transforms a template and hands the coverage of a successful run to an observer with a state of
its own. Branches are always recorded. -/
def transformObserved {σ : Type} (r : Renderer) (observe : σ → Template → Coverage → σ) (state : σ)
    (t : Template) (l : Lookup) : Except Error Statement × σ :=
  match (r.run true t l).result with
  | .error e => (.error e, state)
  | .ok statement =>
    (.ok statement, match statement.coverage with
      | some coverage => observe state t coverage
      | none => state)

/-- Reads a template and transforms it. -/
def render (r : Renderer) (name : Option String) (source : String) (l : Lookup) : Run :=
  match Template.parse name source with
  | .error e => ⟨.error e, []⟩
  | .ok t =>
    let run := r.run r.settings.coverage t l
    { run with events := .parsedTemplate t.tree.count :: run.events }

end Renderer

end TwoWaySql
