import TwoWaySql.Coverage.Report
import TwoWaySql.Decimal.Whole
import TwoWaySql.Encoding.Error

/-!
# Coverage in JSON

Coverage is an object with a member for each branch that was reached, named by the branch's number
in digits. A report is the list of its branches.
-/

namespace TwoWaySql

namespace BranchState

def toJson : BranchState → Json
  | failed => .string "Failed"
  | passed => .string "Passed"

def ofJson? (j : Json) : Option BranchState := do
  match ← j.name? with
  | "Failed" => some failed
  | "Passed" => some passed
  | _ => none

end BranchState

namespace Coverage

/-- The name of a branch's member. -/
def keyOf (branch : NodeId) : String := String.ofList (Decimal.digitsOf branch)

/-- The branch that a member names: only the name that is written for a branch names it. -/
def branchOf? (key : String) : Option NodeId :=
  let digits := key.toList
  let n := Decimal.ofDigits digits
  if n ≤ Json.maxInteger && digits == Decimal.digitsOf n then some n else none

def toJson (c : Coverage) : Json :=
  .object [("states",
    .object (c.states.entries.map fun (branch, state) => (keyOf branch, state.toJson)))]

def ofJson? (j : Json) : Option Coverage :=
  match j.fields? ["states"] with
  | some [some (.object members)] => do
    let entries ← members.mapM fun (key, j) => do
      return (← branchOf? key, ← BranchState.ofJson? j)
    return ⟨.ofList entries⟩
  | _ => none

end Coverage

namespace BranchKind

def toJson : BranchKind → Json
  | ifThen => .string "If"
  | elseIf => .string "ElseIf"
  | otherwise => .string "Else"

def ofJson? (j : Json) : Option BranchKind := do
  match ← j.name? with
  | "If" => some ifThen
  | "ElseIf" => some elseIf
  | "Else" => some otherwise
  | _ => none

end BranchKind

namespace Branch

def toJson (b : Branch) : Json :=
  .object [("id", .ofNatural b.id), ("kind", b.kind.toJson),
    ("expression", .ofOption .string b.expression), ("span", b.position.toJson)]

def ofJson? (j : Json) : Option Branch :=
  match j.fields? ["id", "kind", "expression", "span"] with
  | some [some id, some kind, expression, some position] => do
    return ⟨← id.natural?, ← BranchKind.ofJson? kind, ← Json.optional? Json.text? expression,
      ← Position.ofJson? position⟩
  | _ => none

end Branch

namespace BranchCoverage

def toJson (b : BranchCoverage) : Json :=
  .object [("branch", b.branch.toJson), ("state", .ofOption BranchState.toJson b.state)]

def ofJson? (j : Json) : Option BranchCoverage :=
  match j.fields? ["branch", "state"] with
  | some [some branch, state] => do
    return ⟨← Branch.ofJson? branch, ← Json.optional? BranchState.ofJson? state⟩
  | _ => none

end BranchCoverage

namespace CoverageReport

def toJson (r : CoverageReport) : Json :=
  .object [("branches", .array (r.branches.map BranchCoverage.toJson))]

def ofJson? (j : Json) : Option CoverageReport :=
  match j.fields? ["branches"] with
  | some [some (.array items)] => do return ⟨← items.mapM BranchCoverage.ofJson?⟩
  | _ => none

end CoverageReport

end TwoWaySql
