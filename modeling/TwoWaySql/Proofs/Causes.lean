import TwoWaySql.Proofs.Rendering

/-!
# What errors of a transformation point at

A transformation that fails blames something that is there: a variable that stands for nothing, a
path that cannot be followed, or a condition of a branch. An error does not always arise where its
cause is met, because an optional block notes absent names and fails at its end. This file

1. says what an error of a part of a tree points at (`Surroundings.Cause`), and what that takes of a
   meaning that is no error: the names that it notes stand for nothing (`Surroundings.Grounded`);
2. has one lemma for each way in which meanings are put together, and from them shows that the
   meaning of every part of a tree is grounded in what that part mentions (`Node.grounded`);
3. concludes that every error of a transformation points at a variable or a branch of the template
   (`Renderer.error_cause`).
-/

namespace TwoWaySql

namespace Surroundings

/-! ## Causes -/

section

variable (s : Surroundings) (names : List String) (branches : List Branch)

/-- One of the variables, which stands for nothing. -/
def Absent (name : String) : Prop := name ∈ names ∧ s.lookup.resolve? name = .ok none

/-- What an error points at, among variables and branches. -/
inductive Cause : Error → Prop
  | absent {name : String} (absent : s.Absent names name) : Cause (.missingParameter name)
  | path {name : String} {fault : PathFault} (named : name ∈ names)
    (fails : s.lookup.resolve? name = .error fault) : Cause (.evaluation name fault.message)
  | condition {branch : Branch} {condition : String} {e : Error} (listed : branch ∈ branches)
    (expression : branch.expression = some condition)
    (fails : s.evaluator.evaluate condition s.lookup = .error e) : Cause e
  | type {branch : Branch} {condition : String} {v : Value} (listed : branch ∈ branches)
    (expression : branch.expression = some condition)
    (value : s.evaluator.evaluate condition s.lookup = .ok v) (noBoolean : v.asBool? = none) :
    Cause (.evaluationType condition v.typeName)

/-- An error has a cause. Where there is none, every name that is noted stands for nothing, so that
an error that comes of it later has a cause as well. -/
def Grounded : Except Error Meaning → Prop
  | .error e => s.Cause names branches e
  | .ok m => ∀ name ∈ m.absent, s.Absent names name

end

variable {s : Surroundings} {names names' : List String} {branches branches' : List Branch}

theorem Cause.mono {e : Error} (h : s.Cause names branches e) (hnames : names ⊆ names')
    (hbranches : branches ⊆ branches') : s.Cause names' branches' e := by
  cases h with
  | absent absent => exact .absent ⟨hnames absent.1, absent.2⟩
  | path named fails => exact .path (hnames named) fails
  | condition listed expression fails => exact .condition (hbranches listed) expression fails
  | type listed expression value noBoolean =>
    exact .type (hbranches listed) expression value noBoolean

namespace Grounded

variable {r : Except Error Meaning}

theorem mono (h : s.Grounded names branches r) (hnames : names ⊆ names')
    (hbranches : branches ⊆ branches') : s.Grounded names' branches' r := by
  cases r with
  | error e => exact Cause.mono h hnames hbranches
  | ok m => exact fun name hname => ⟨hnames (h name hname).1, (h name hname).2⟩

theorem inRow {next : Except Error Meaning} (h : s.Grounded names branches r)
    (hnext : s.Grounded names branches next) :
    s.Grounded names branches (Meaning.inRow r next) := by
  cases r with
  | error e => exact h
  | ok m =>
    cases next with
    | error e => exact hnext
    | ok n =>
      intro name hname
      rcases List.mem_append.1 hname with hname | hname
      · exact h name hname
      · exact hnext name hname

theorem taken (h : s.Grounded names branches r) (id : NodeId) :
    s.Grounded names branches (r.map (.taken id)) := by
  cases r <;> exact h

theorem passedOver (h : s.Grounded names branches r) (id : NodeId) :
    s.Grounded names branches (r.map (.passedOver id)) := by
  cases r <;> exact h

/-- A block that fails at its end blames a name that was noted in it. -/
theorem block (h : s.Grounded names branches r) :
    s.Grounded names branches (Meaning.block r) := by
  cases r with
  | error e => exact h
  | ok m =>
    show s.Grounded names branches m.settled
    unfold Meaning.settled
    split
    · split
      · exact h
      · next name rest habsent =>
        refine .absent (h name ?_)
        rw [habsent]
        exact List.mem_cons_self
    · nofun

theorem resolved {name : String} (hname : name ∈ names) (optional : Bool)
    (pieces : Value → List Piece) :
    s.Grounded names branches (s.resolved optional name pieces) := by
  unfold Surroundings.resolved
  rw [← Lookup.resolve?_eq_given]
  split
  · next hfault => exact .path hname hfault
  · nofun
  · next hnone =>
    split
    · intro noted hnoted
      rw [List.mem_singleton.1 hnoted]
      exact ⟨hname, hnone⟩
    · exact .absent ⟨hname, hnone⟩

theorem choose {branch : Branch} {condition : String} {yes no : Except Error Meaning}
    (hbranch : branch ∈ branches) (hexpression : branch.expression = some condition)
    (hyes : s.Grounded names branches yes) (hno : s.Grounded names branches no) :
    s.Grounded names branches (s.choose condition yes no) := by
  unfold Surroundings.choose holds
  cases hvalue : s.evaluator.evaluate condition s.lookup with
  | error e => exact .condition hbranch hexpression hvalue
  | ok v =>
    cases v with
    | bool b =>
      cases b with
      | true => exact hyes
      | false => exact hno
    | _ => exact .type hbranch hexpression hvalue rfl

end Grounded

end Surroundings

/-! ## Trees -/

section

variable {s : Surroundings}

mutual

/-- What a node means is grounded in its variables and its branches. -/
theorem Node.grounded :
    ∀ (node : Node) (optional : Bool) (start : NodeId),
      s.Grounded node.names (node.branches start) (node.meaning s optional start)
  | .text content, _, _ => nofun
  | .bind name paren, optional, _ => .resolved (List.mem_singleton.2 rfl) optional _
  | .embedded name quoted, optional, _ => .resolved (List.mem_singleton.2 rfl) optional _
  | .chain condition position body rest, optional, start => by
    rw [Node.names, Node.branches, Node.meaning]
    have hbody := (Node.groundedAll body optional start).taken (start + Node.countAll body)
    have hrest := (Chain.grounded rest optional (start + Node.countAll body + 1)).passedOver
      (start + Node.countAll body)
    exact .choose List.mem_cons_self rfl (hbody.mono (by simp) (by simp))
      (hrest.mono (by simp) (by simp))
  | .block body, optional, start => by
    rw [Node.names, Node.branches, Node.meaning]
    exact (Node.groundedAll body true start).block

theorem Chain.grounded :
    ∀ (chain : Chain) (optional : Bool) (start : NodeId),
      s.Grounded chain.names (chain.branches start) (chain.meaning s optional start)
  | .done, _, _ => nofun
  | .elseIf condition position body rest, optional, start => by
    rw [Chain.names, Chain.branches, Chain.meaning]
    have hbody := (Node.groundedAll body optional start).taken (start + Node.countAll body)
    have hrest := (Chain.grounded rest optional (start + Node.countAll body + 1)).passedOver
      (start + Node.countAll body)
    exact .choose List.mem_cons_self rfl (hbody.mono (by simp) (by simp))
      (hrest.mono (by simp) (by simp))
  | .otherwise position body, optional, start => by
    rw [Chain.names, Chain.branches, Chain.meaning]
    have hbody := (Node.groundedAll body optional start).taken (start + Node.countAll body)
    exact hbody.mono (List.Subset.refl _) (List.subset_cons_self _ _)

theorem Node.groundedAll :
    ∀ (nodes : List Node) (optional : Bool) (start : NodeId),
      s.Grounded (Node.namesAll nodes) (Node.branchesAll start nodes)
        (Node.meaningAll s optional start nodes)
  | [], _, _ => nofun
  | node :: rest, optional, start => by
    rw [Node.namesAll, Node.branchesAll, Node.meaningAll]
    have hnode := Node.grounded node optional start
    have hrest := Node.groundedAll rest optional (start + node.count)
    exact (hnode.mono (by simp) (by simp)).inRow (hrest.mono (by simp) (by simp))

end

end

/-! ## Transformations -/

/-- A condition that has no value is blamed itself. -/
theorem Evaluator.error_of_evaluate_stock {functions : Functions} {condition : String} {l : Lookup}
    {e : Error} (h : (stock functions).evaluate condition l = .error e) :
    ∃ message, e = .evaluation condition message := by
  simp only [stock, ofFunctions] at h
  split at h
  · exact ⟨_, (Except.error.inj h).symm⟩
  · split at h
    · cases h
    · exact ⟨_, (Except.error.inj h).symm⟩

theorem Template.mem_missing {t : Template} {l : Lookup} {name : String}
    (hname : name ∈ t.parameters) (habsent : l.resolve? name = .ok none) : name ∈ t.missing l := by
  refine List.mem_filter.2 ⟨hname, ?_⟩
  rw [Lookup.resolves, habsent]
  rfl

/-- Only a path can lead to a fault. -/
theorem Lookup.path_of_resolve? {l : Lookup} {name : String} {fault : PathFault}
    (h : l.resolve? name = .error fault) :
    Name.isDotted name = true ∧ l.path? name = .error fault := by
  unfold resolve? at h
  split at h
  · next hdotted => exact ⟨hdotted, h⟩
  · split at h <;> cases h

namespace Renderer

/-- Every error of a transformation points at something real: a variable of the template that is
missing, a branch whose condition has a value that is no boolean or has none, for the reason given,
or a variable whose path cannot be followed, for the reason given. So it is never an error of the
kind that is found when a template is read, and no parameter is reported as missing where none is
missing. -/
theorem error_cause {settings : Settings} {functions : Functions} {mappers : List Mapper}
    {t : Template} {l : Lookup} {recorded : Bool} {e : Error}
    (h : (run ⟨settings, .stock functions, mappers⟩ recorded t l).result = .error e) :
    ((∃ name ∈ t.missing l, e = .missingParameter name) ∨
      (∃ branch ∈ t.branches, ∃ condition ∈ branch.expression, ∃ v : Value,
        (Evaluator.stock functions).evaluate condition l = .ok v ∧ v.asBool? = none ∧
        e = .evaluationType condition v.typeName) ∨
      (∃ branch ∈ t.branches, ∃ condition ∈ branch.expression, ∃ message,
        (Evaluator.stock functions).evaluate condition l = .error e ∧
        e = .evaluation condition message) ∨
      ∃ name ∈ t.parameters, Name.isDotted name = true ∧ ∃ fault : PathFault,
        l.path? name = .error fault ∧ e = .evaluation name fault.message) ∧
    e.isParseTime = false ∧ (t.missing l = [] → ∀ name, e ≠ .missingParameter name) := by
  have hgrounded := Node.groundedAll (s := ⟨l, .stock functions, mappers⟩) t.tree.nodes false 0
  have hmeaning : t.tree.meaning ⟨l, .stock functions, mappers⟩ = .error e := by
    rw [run, result_eq] at h
    cases hm : t.tree.meaning ⟨l, .stock functions, mappers⟩ with
    | error other =>
      rw [hm] at h
      exact congrArg Except.error (Except.error.inj h)
    | ok m =>
      rw [hm] at h
      cases h
  rw [Tree.meaning] at hmeaning
  rw [hmeaning] at hgrounded
  have hparameter {name : String} (hname : name ∈ Node.namesAll t.tree.nodes) :
      name ∈ t.parameters := List.mem_eraseDups.2 hname
  cases (hgrounded : Surroundings.Cause _ _ _ e) with
  | absent absent =>
    have hmissing := Template.mem_missing (hparameter absent.1) absent.2
    refine ⟨.inl ⟨_, hmissing, rfl⟩, rfl, fun hnone => ?_⟩
    rw [hnone] at hmissing
    cases hmissing
  | path named fails =>
    obtain ⟨hdotted, hfault⟩ := Lookup.path_of_resolve? fails
    exact ⟨.inr (.inr (.inr ⟨_, hparameter named, hdotted, _, hfault, rfl⟩)), rfl, nofun⟩
  | condition listed expression fails =>
    obtain ⟨message, rfl⟩ := Evaluator.error_of_evaluate_stock fails
    exact ⟨.inr (.inr (.inl ⟨_, listed, _, expression, message, fails, rfl⟩)), rfl, nofun⟩
  | type listed expression value noBoolean =>
    exact ⟨.inr (.inl ⟨_, listed, _, expression, _, value, noBoolean, rfl⟩), rfl, nofun⟩

/-- A template with a block in a block, a path and a condition. -/
def ordersQuery : Template where
  name := none
  source := "/*BEGIN*/a = :a/*BEGIN*/ AND b = :b AND c = :c.d/*END*//*END*//*IF n > 1*/!/*END*/"
  tree := ⟨[.block [.text "a = ", .bind "a" false,
      .block [.text " AND b = ", .bind "b" false, .text " AND c = ", .bind "c.d" false]],
    .chain "n > 1" ⟨62, 1, 63⟩ [.text "!"] .done]⟩
  ofSource_source := by with_unfolding_all rfl

/-- The block that is live blames the path that is missing in it, and not the variable that is
missing in the block around it. A path that leads into a text is blamed where it stands. -/
theorem error_cause_ordersQuery :
    let missing := (Parameters.ofList [("b", .null)]).lookup
    let broken := (Parameters.ofList [("c", .string "x")]).lookup
    (stock.transform ordersQuery missing = .error (.missingParameter "c.d") ∧
      "c.d" ∈ ordersQuery.missing missing) ∧
    stock.transform ordersQuery broken =
      .error (.evaluation "c.d" "cannot read property 'd' of a string") ∧
    Error.isParseTime (.evaluation "c.d" "cannot read property 'd' of a string") = false := by
  intro missing broken
  have hmissing : stock.transform ordersQuery missing = .error (.missingParameter "c.d") := rfl
  have hbroken : stock.transform ordersQuery broken =
      .error (.evaluation "c.d" "cannot read property 'd' of a string") := rfl
  refine ⟨⟨hmissing, ?_⟩, hbroken, (error_cause hbroken).2.1⟩
  rcases (error_cause hmissing).1 with ⟨name, hname, heq⟩ | ⟨_, _, _, _, _, _, _, heq⟩ |
    ⟨_, _, _, _, _, _, heq⟩ | ⟨_, _, _, _, _, heq⟩
  · exact Error.missingParameter.inj heq ▸ hname
  all_goals cases heq

end Renderer

end TwoWaySql
