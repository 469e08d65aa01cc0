import TwoWaySql.Lookup
import TwoWaySql.Tree.Build
import TwoWaySql.Tree.Contents

/-!
# Templates

A template is a source together with its tree. The tree is always the one that the source gives, so
two templates with the same source have the same tree.
-/

namespace TwoWaySql

/-- A template that has been read. -/
structure Template where
  /-- What reports call the template. -/
  name : Option String
  source : String
  tree : Tree
  ofSource_source : Tree.ofSource source = .ok tree

namespace Template

def parse (name : Option String) (source : String) : Except Error Template :=
  match h : Tree.ofSource source with
  | .ok tree => .ok ⟨name, source, tree, h⟩
  | .error e => .error e

/-- A source that yields a tree is a template with that tree. -/
theorem parse_of_ofSource {source : String} {tree : Tree} (h : Tree.ofSource source = .ok tree)
    (name : Option String) : parse name source = .ok ⟨name, source, tree, h⟩ := by
  unfold parse
  split
  · next found hfound =>
    cases hfound.symm.trans h
    rfl
  · next he => cases he.symm.trans h

/-- A source that yields no tree is refused for the same reason. -/
theorem parse_of_error {source : String} {e : Error} (h : Tree.ofSource source = .error e)
    (name : Option String) : parse name source = .error e := by
  unfold parse
  split
  · next hfound => cases hfound.symm.trans h
  · next he =>
    cases he.symm.trans h
    rfl

theorem ofSource_of_parse {name : Option String} {source : String} {t : Template}
    (h : parse name source = .ok t) : Tree.ofSource source = .ok t.tree := by
  cases htree : Tree.ofSource source with
  | ok tree =>
    rw [parse_of_ofSource htree] at h
    cases h
    rfl
  | error e =>
    rw [parse_of_error htree] at h
    cases h

instance : BEq Template := ⟨fun s t => s.name == t.name && s.source == t.source⟩

def parameters (t : Template) : List String := t.tree.parameters

/-- The variables that stand for nothing under a lookup. A variable in a branch that is not taken or
in an optional block may be missing without harm. -/
def missing (t : Template) (l : Lookup) : List String :=
  t.parameters.filter fun name => !l.resolves name

def branches (t : Template) : List Branch := t.tree.branches

/-- The branches and what happened to them. -/
def coverageReport (t : Template) (c : Coverage) : CoverageReport := .of t.branches c

/-- What reports file the template under: its name, or its source if it has none. -/
def key (t : Template) : String := t.name.getD t.source

end Template

end TwoWaySql
