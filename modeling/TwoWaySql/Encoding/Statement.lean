import TwoWaySql.Encoding.Coverage
import TwoWaySql.Encoding.Value
import TwoWaySql.Statement

/-!
# Settings and statements in JSON

Settings that are left out have their defaults.
-/

namespace TwoWaySql

namespace Placeholder

def toJson : Placeholder → Json
  | question => .string "Question"
  | numbered => .string "Numbered"

def ofJson? (j : Json) : Option Placeholder := do
  match ← j.name? with
  | "Question" => some question
  | "Numbered" => some numbered
  | _ => none

end Placeholder

namespace Settings

def toJson (s : Settings) : Json :=
  .object [("placeholder", s.placeholder.toJson), ("coverage", .bool s.coverage),
    ("clause_cleanup", .bool s.clauseCleanup)]

/-- A setting that may be left out. -/
def setting? {α : Type} (read : Json → Option α) (standard : α) : Option Json → Option α
  | none => some standard
  | some j => read j

def ofJson? (j : Json) : Option Settings :=
  match j.fieldsOrFewer? ["placeholder", "coverage", "clause_cleanup"] with
  | some [placeholder, coverage, clauseCleanup] => do
    let standard : Settings := {}
    return ⟨← setting? Placeholder.ofJson? standard.placeholder placeholder,
      ← setting? Json.flag? standard.coverage coverage,
      ← setting? Json.flag? standard.clauseCleanup clauseCleanup⟩
  | _ => none

end Settings

namespace BoundValue

def toJson (b : BoundValue) : Json := .object [("name", .string b.name), ("value", b.value.toJson)]

def ofJson? (j : Json) : Option BoundValue :=
  match j.fields? ["name", "value"] with
  | some [some name, some v] => do return ⟨← name.text?, ← Value.ofJson? v⟩
  | _ => none

end BoundValue

namespace Statement

def toJson (s : Statement) : Json :=
  .object [("sql", .string s.sql), ("binds", .array (s.binds.map BoundValue.toJson)),
    ("coverage", .ofOption Coverage.toJson s.coverage)]

def ofJson? (j : Json) : Option Statement :=
  match j.fields? ["sql", "binds", "coverage"] with
  | some [some sql, some (.array binds), coverage] => do
    return ⟨← sql.text?, ← binds.mapM BoundValue.ofJson?,
      ← Json.optional? Coverage.ofJson? coverage⟩
  | _ => none

end Statement

end TwoWaySql
