import TwoWaySql.Table
import TwoWaySql.Tree

/-!
# Coverage

Which branches of a template were entered, and which only had their condition looked at. A branch is
named by the number of its body. A state once reached is never lost: recording and merging keep the
stronger one.
-/

namespace TwoWaySql

/-- What happened to a branch. -/
inductive BranchState where
  /-- Its condition did not hold. -/
  | failed
  /-- Its body was entered. -/
  | passed
  deriving DecidableEq, Repr

/-- The stronger one of two states. -/
def BranchState.join : BranchState → BranchState → BranchState
  | failed, failed => failed
  | _, _ => passed

/-- The states of branches. A branch that was never reached has none. -/
structure Coverage where
  states : Table NodeId BranchState
  deriving Inhabited

instance : BEq Coverage := ⟨fun a b => a.states == b.states⟩

namespace Coverage

def empty : Coverage := ⟨.empty⟩

def state? (c : Coverage) (branch : NodeId) : Option BranchState := c.states.get? branch

def passed (c : Coverage) (branch : NodeId) : Bool := c.state? branch == some .passed

def record (c : Coverage) (branch : NodeId) (state : BranchState) : Coverage :=
  ⟨c.states.insert branch (((c.state? branch).map state.join).getD state)⟩

def merge (c other : Coverage) : Coverage :=
  other.states.entries.foldl (fun c (branch, state) => c.record branch state) c

def isEmpty (c : Coverage) : Bool := c.states.isEmpty

/-- Recording changes the state of one branch only, and to the stronger of the two states. -/
theorem state?_record (c : Coverage) (branch other : NodeId) (state : BranchState) :
    (c.record branch state).state? other =
      if other = branch then some (((c.state? branch).map state.join).getD state)
      else c.state? other :=
  Table.get?_insert ..

end Coverage

end TwoWaySql
