import TwoWaySql.Template

/-!
# Collected coverage

A collector adds up the coverage of many runs. Templates are told apart by their keys; the branches
that a report lists are those of the first template with its key.
-/

namespace TwoWaySql

/-- The coverage collected for one key. -/
structure Collected where
  branches : List Branch
  coverage : Coverage

def Collected.report (c : Collected) : CoverageReport := .of c.branches c.coverage

/-- Coverage by key. -/
structure Collector where
  entries : Table String Collected
  deriving Inhabited

namespace Collector

def empty : Collector := ⟨.empty⟩

/-- Adds the coverage of a run. -/
def add (c : Collector) (t : Template) (coverage : Coverage) : Collector :=
  let before := (c.entries.get? t.key).getD ⟨t.branches, .empty⟩
  ⟨c.entries.insert t.key ⟨before.branches, before.coverage.merge coverage⟩⟩

def report? (c : Collector) (key : String) : Option CoverageReport :=
  (c.entries.get? key).map Collected.report

def reports (c : Collector) : List (String × CoverageReport) :=
  c.entries.entries.map fun (key, collected) => (key, collected.report)

end Collector

end TwoWaySql
