import TwoWaySql.Proofs.Causes
import TwoWaySql.Proofs.Marks

/-!
# Templates without directives

A template of text and variables alone has nothing that could make a variable optional: whether it
can be rendered is a matter of its variables. This file

1. states the rule by which parameters are listed as missing (`Lookup.lacks`), and which error a
   variable under that rule leads to (`Lookup.Blames`);
2. shows that the first of the missing parameters is the first variable that a lookup lacks, however
   often names occur (`Template.head?_missing`);
3. renders a row of texts and variables: it fails at that variable, if there is one
   (`Surroundings.Stops`);
4. concludes that the missing parameters decide whether such a template is rendered
   (`Renderer.missing_decides`).
-/

namespace TwoWaySql

/-- Whether a token is a text or a variable. -/
def TokenKind.isLeaf : TokenKind → Bool
  | .text _ | .bind _ _ | .embedded _ _ => true
  | _ => false

def Node.isLeaf : Node → Bool
  | .text _ | .bind _ _ | .embedded _ _ => true
  | .chain _ _ _ _ | .block _ => false

/-! ## Lookups that lack a variable -/

namespace Lookup

/-- Whether a lookup lacks a variable: a dotted name has no value at its end, or any other name is
not present. -/
def lacks (l : Lookup) (name : String) : Bool :=
  if Name.isDotted name then
    match l.path? name with
    | .ok (some _) => false
    | _ => true
  else !l.has name

/-- The error of a variable that a lookup lacks: it is missing if it is absent, and an evaluation
that fails if its path cannot be followed. -/
inductive Blames (l : Lookup) (name : String) : Error → Prop
  | absent (plain : Name.isDotted name = false) (absent : l.has name = false) :
    Blames l name (.missingParameter name)
  | ends (dotted : Name.isDotted name = true) (ends : l.path? name = .ok none) :
    Blames l name (.missingParameter name)
  | fails (dotted : Name.isDotted name = true) {fault : PathFault}
    (fails : l.path? name = .error fault) : Blames l name (.evaluation name fault.message)

/-- A lookup lacks a variable exactly if the variable resolves to nothing. -/
theorem lacks_eq (l : Lookup) (name : String) : l.lacks name = !l.resolves name := by
  unfold lacks resolves resolve?
  cases Name.isDotted name with
  | true =>
    rw [if_pos rfl, if_pos rfl]
    cases l.path? name with
    | error fault => rfl
    | ok found => cases found <;> rfl
  | false =>
    rw [if_neg Bool.false_ne_true, if_neg Bool.false_ne_true]
    cases l.has name <;> rfl

end Lookup

/-! ## The first missing parameter -/

/-- Leaving out repetitions does not change what is found first. -/
theorem find?_eraseDups (p : String → Bool) : ∀ names : List String,
    names.eraseDups.find? p = names.find? p
  | [] => rfl
  | name :: rest => by
    rw [List.eraseDups_cons, List.find?_cons, List.find?_cons]
    cases hname : p name with
    | true => rfl
    | false =>
      -- the repetitions that are left out are no finds either
      have hothers : (fun other => decide ((!other == name) = true ∧ p other = true)) = p := by
        funext other
        cases hother : other == name with
        | true => simp [eq_of_beq hother, hname]
        | false => simp
      rw [find?_eraseDups p, List.find?_filter, hothers]
termination_by names => names.length
decreasing_by exact Nat.lt_succ_of_le (List.length_filter_le _ _)

theorem Template.missing_eq (t : Template) (l : Lookup) :
    t.missing l = t.parameters.filter l.lacks :=
  List.filter_congr fun name _ => (l.lacks_eq name).symm

theorem Template.head?_missing (t : Template) (l : Lookup) :
    (t.missing l).head? = (Node.namesAll t.tree.nodes).find? l.lacks := by
  rw [missing_eq, List.head?_filter]
  exact find?_eraseDups l.lacks _

/-! ## Rows of texts and variables -/

/-- What is rendered fails for the variable that is lacking first, and does not fail if there is
none. -/
def Lookup.Stops {α : Type} (l : Lookup) (first : Option String) (result : Except Error α) :
    Prop :=
  match first with
  | none => ∃ a, result = .ok a
  | some name => ∃ e, result = .error e ∧ l.Blames name e

namespace Lookup.Stops

variable {l : Lookup}

theorem map {α β : Type} {first : Option String} {result : Except Error α}
    (h : l.Stops first result) (f : α → β) : l.Stops first (result.map f) := by
  cases first with
  | none =>
    obtain ⟨a, rfl⟩ := h
    exact ⟨f a, rfl⟩
  | some name =>
    obtain ⟨e, rfl, hblames⟩ := h
    exact ⟨e, rfl, hblames⟩

theorem inRow {first second : Option String} {result next : Except Error Meaning}
    (h : l.Stops first result) (hnext : l.Stops second next) :
    l.Stops (first.or second) (Meaning.inRow result next) := by
  cases first with
  | some name =>
    obtain ⟨e, rfl, hblames⟩ := h
    exact ⟨e, rfl, hblames⟩
  | none =>
    obtain ⟨m, rfl⟩ := h
    cases second with
    | some name =>
      obtain ⟨e, rfl, hblames⟩ := hnext
      exact ⟨e, rfl, hblames⟩
    | none =>
      obtain ⟨n, rfl⟩ := hnext
      exact ⟨_, rfl⟩

/-- A variable outside optional blocks fails if the lookup lacks it. -/
theorem resolved (s : Surroundings) (name : String) (pieces : Value → List Piece) :
    s.lookup.Stops ([name].find? s.lookup.lacks) (s.resolved false name pieces) := by
  have hlacks := s.lookup.lacks_eq name
  unfold Surroundings.resolved
  rw [← resolve?_eq_given]
  unfold resolves at hlacks
  cases hname : s.lookup.resolve? name with
  | error fault =>
    rw [hname] at hlacks
    obtain ⟨hdotted, hfault⟩ := path_of_resolve? hname
    rw [List.find?_cons_of_pos hlacks]
    exact ⟨_, rfl, .fails hdotted hfault⟩
  | ok found =>
    rw [hname] at hlacks
    cases found with
    | some v =>
      rw [List.find?_cons_of_neg (by rw [hlacks]; exact Bool.false_ne_true)]
      exact ⟨_, rfl⟩
    | none =>
      rw [List.find?_cons_of_pos hlacks]
      refine ⟨_, rfl, ?_⟩
      unfold resolve? at hname
      split at hname
      · next hdotted => exact .ends hdotted hname
      · next hplain =>
        split at hname
        · cases hname
        · next habsent =>
          exact .absent (Bool.eq_false_iff.2 hplain) (Bool.eq_false_iff.2 habsent)

end Lookup.Stops

namespace Surroundings

variable (s : Surroundings)

theorem stops_leaf {node : Node} (hleaf : node.isLeaf = true) (start : NodeId) :
    s.lookup.Stops (node.names.find? s.lookup.lacks) (node.meaning s false start) := by
  cases node with
  | text content => exact ⟨_, rfl⟩
  | bind name paren => exact .resolved s name _
  | embedded name quoted => exact .resolved s name _
  | chain | block => cases hleaf

theorem stops_leaves {nodes : List Node} (hleaves : ∀ node ∈ nodes, node.isLeaf = true)
    (start : NodeId) :
    s.lookup.Stops ((Node.namesAll nodes).find? s.lookup.lacks)
      (Node.meaningAll s false start nodes) := by
  induction nodes generalizing start with
  | nil => exact ⟨_, rfl⟩
  | cons node rest ih =>
    obtain ⟨hleaf, hrest⟩ := List.forall_mem_cons.1 hleaves
    rw [Node.namesAll, List.find?_append, Node.meaningAll]
    exact (s.stops_leaf hleaf start).inRow (ih hrest _)

end Surroundings

/-! ## Templates -/

/-- Only texts and variables have marks of these kinds alone. -/
theorem Node.isLeaf_of_marks {node : Node} (h : ∀ mark ∈ node.marks, mark.kind.isLeaf = true) :
    node.isLeaf = true := by
  cases node with
  | text | bind | embedded => rfl
  | chain | block => exact h _ List.mem_cons_self

theorem Node.isLeaf_of_marksAll {nodes : List Node}
    (h : ∀ mark ∈ Node.marksAll nodes, mark.kind.isLeaf = true) :
    ∀ node ∈ nodes, node.isLeaf = true := by
  induction nodes with
  | nil => exact fun _ hnode => absurd hnode List.not_mem_nil
  | cons node rest ih =>
    rw [Node.marksAll, List.forall_mem_append] at h
    exact List.forall_mem_cons.2 ⟨Node.isLeaf_of_marks h.1, ih h.2⟩

namespace Renderer

/-- For a template of text and variables alone the missing parameters decide whether it is rendered:
it is if there are none, and else the error is about the first of them. They are the parameters that
the lookup lacks, in the order of the source. -/
theorem missing_decides {t : Template}
    (hleaves : ∀ token ∈ (Token.scan t.source).tokens, token.kind.isLeaf = true) (r : Renderer)
    (recorded : Bool) (l : Lookup) :
    t.missing l = t.parameters.filter l.lacks ∧
      ((∃ st, (r.run recorded t l).result = .ok st) ↔ t.missing l = []) ∧
      ∀ name rest, t.missing l = name :: rest →
        ∃ e, (r.run recorded t l).result = .error e ∧ l.Blames name e := by
  have hmarks : ∀ mark ∈ t.tree.marks, mark.kind.isLeaf = true := by
    rw [t.marks_eq]
    exact List.forall_mem_map.2 hleaves
  have hstops := Surroundings.stops_leaves ⟨l, r.evaluator, r.mappers⟩
    (Node.isLeaf_of_marksAll hmarks) 0
  have hrun : l.Stops (t.missing l).head? (r.run recorded t l).result := by
    rw [run, r.result_eq, t.head?_missing]
    exact hstops.map _
  refine ⟨t.missing_eq l, ?_⟩
  cases hmissing : t.missing l with
  | nil =>
    rw [hmissing] at hrun
    exact ⟨⟨fun _ => rfl, fun _ => hrun⟩, fun _ _ hcons => by cases hcons⟩
  | cons first others =>
    rw [hmissing] at hrun
    obtain ⟨e, he, hblames⟩ := hrun
    refine ⟨⟨fun hok => ?_, fun hnil => by cases hnil⟩, fun name rest hcons => ?_⟩
    · obtain ⟨st, hst⟩ := hok
      cases he.symm.trans hst
    · cases hcons
      exact ⟨e, he, hblames⟩

/-- A template in which names occur again, with a path. -/
def rowQuery : Template where
  name := none
  source := "a = :a AND b = :b AND c = /*c.d*/1 OR a = :a"
  tree := ⟨[.text "a = ", .bind "a" false, .text " AND b = ", .bind "b" false, .text " AND c = ",
    .bind "c.d" false, .text " OR a = ", .bind "a" false]⟩
  ofSource_source := by with_unfolding_all rfl

/-- A variable that is absent is blamed in front of a path that leads into a text, which is blamed
where it is the only one. A null is present. -/
theorem missing_decides_rowQuery :
    let absent := (Parameters.ofList [("a", .null), ("c", .string "x")]).lookup
    let broken := (Parameters.ofList [("a", .null), ("b", .int 1), ("c", .string "x")]).lookup
    let full :=
      (Parameters.ofList [("a", .null), ("b", .int 1), ("c", .map [("d", .int 2)])]).lookup
    (∀ token ∈ (Token.scan rowQuery.source).tokens, token.kind.isLeaf = true) ∧
      (rowQuery.missing absent = ["b", "c.d"] ∧
        ∃ e, (stock.run false rowQuery absent).result = .error e ∧ absent.Blames "b" e) ∧
      (rowQuery.missing broken = ["c.d"] ∧
        ∃ e, (stock.run false rowQuery broken).result = .error e ∧ broken.Blames "c.d" e) ∧
      rowQuery.missing full = [] ∧ ∃ st, (stock.run true rowQuery full).result = .ok st := by
  intro absent broken full
  have hleaves : ∀ token ∈ (Token.scan rowQuery.source).tokens, token.kind.isLeaf = true := by
    decide +kernel
  have habsent : rowQuery.missing absent = ["b", "c.d"] := by decide +kernel
  have hbroken : rowQuery.missing broken = ["c.d"] := by decide +kernel
  have hfull : rowQuery.missing full = [] := by decide +kernel
  obtain ⟨-, -, herror⟩ := missing_decides hleaves stock false absent
  obtain ⟨-, -, herror'⟩ := missing_decides hleaves stock false broken
  obtain ⟨-, hok, -⟩ := missing_decides hleaves stock true full
  exact ⟨hleaves, ⟨habsent, herror "b" _ habsent⟩, ⟨hbroken, herror' "c.d" _ hbroken⟩, hfull,
    hok.2 hfull⟩

end Renderer

end TwoWaySql
