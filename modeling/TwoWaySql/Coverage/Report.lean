import TwoWaySql.Coverage
import TwoWaySql.Position

/-!
# Coverage reports

The branches of a template next to what happened to them.
-/

namespace TwoWaySql

/-- The kinds of branches. -/
inductive BranchKind where
  | ifThen
  | elseIf
  | otherwise
  deriving DecidableEq, Repr

/-- The directive that opens a branch of a kind. -/
def BranchKind.text : BranchKind → String
  | ifThen => "IF"
  | elseIf => "ELIF"
  | otherwise => "ELSE"

/-- A branch of a template. -/
structure Branch where
  /-- The number of its body. -/
  id : NodeId
  kind : BranchKind
  /-- Its condition, if it has one. -/
  expression : Option String
  position : Position
  deriving DecidableEq, Repr

/-- A branch and what happened to it. -/
structure BranchCoverage where
  branch : Branch
  state : Option BranchState
  deriving DecidableEq, Repr

def BranchCoverage.covered (b : BranchCoverage) : Bool := b.state == some .passed

/-- The branch as a line of a report. -/
def BranchCoverage.text (b : BranchCoverage) : String :=
  let marker := match b.state with
    | some .passed => "passed"
    | some .failed => "failed"
    | none => "not reached"
  let expression := match b.branch.expression with
    | some expression => " " ++ expression
    | none => ""
  "  " ++ b.branch.position.text ++ ": " ++ b.branch.kind.text ++ expression ++
    " [" ++ marker ++ "]\n"

/-- Branches and what happened to them. -/
structure CoverageReport where
  branches : List BranchCoverage
  deriving DecidableEq, Repr

namespace CoverageReport

/-- The report on the given branches. -/
def of (branches : List Branch) (c : Coverage) : CoverageReport :=
  ⟨branches.map fun branch => ⟨branch, c.state? branch.id⟩⟩

def total (r : CoverageReport) : Nat := r.branches.length

def covered (r : CoverageReport) : Nat := r.branches.countP BranchCoverage.covered

def uncovered (r : CoverageReport) : List Branch :=
  (r.branches.filter fun b => !b.covered).map BranchCoverage.branch

/-- The share of branches that were entered; one if there are no branches. -/
def ratio (r : CoverageReport) : Float :=
  if r.branches.isEmpty then 1.0 else Float.ofNat r.covered / Float.ofNat r.total

/-- The report in words. -/
def text (r : CoverageReport) : String :=
  s!"branches covered: {r.covered}/{r.total}\n" ++
    String.join (r.branches.map BranchCoverage.text)

end CoverageReport

end TwoWaySql
