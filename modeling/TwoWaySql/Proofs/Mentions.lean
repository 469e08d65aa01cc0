import TwoWaySql.Renderer

/-!
# What a transformation reads

A transformation asks its lookup for the variables of the template and for the paths of its
conditions, and for nothing else. Both are found by collectors that walk the tree and the
expressions on their own, so what is proved is that the collectors miss nothing:

1. an expression has one value under two lookups that follow its paths alike (`Expr.eval_congr`),
   so the stock evaluator reads the paths that it names (`Evaluator.evaluate_stock_congr`);
2. rendering takes the same course under two lookups that are alike on the names and the branches
   of a part of the tree (`Node.render_congr`);
3. a template cannot tell two lookups apart that give the same answers where it asks, and a
   parameter that it does not mention may come, change or go (`Renderer.reads_mentioned_only`).
-/

namespace TwoWaySql

/-! ## Expressions -/

namespace Expr

mutual

/-- Two lookups that follow the paths of an expression alike give it the same value. -/
theorem eval_congr (functions : Functions) {l l' : Lookup} :
    ∀ e : Expr, (∀ path ∈ e.allPaths, l.path? path = l'.path? path) →
      e.eval functions l = e.eval functions l'
  | literal v, _ => rfl
  | path p, h => by
    have hpath := h p (List.mem_singleton.2 rfl)
    simp only [eval, hpath]
  | call name arguments, h => by
    have harguments := evalAll_congr functions arguments h
    simp only [eval, harguments]
  | not e, h | neg e, h => by
    have hoperand := eval_congr functions e h
    simp only [eval, hoperand]
  | and left right, h | or left right, h | compare op left right, h => by
    have hleft := eval_congr functions left fun p hp => h p (List.mem_append_left _ hp)
    have hright := eval_congr functions right fun p hp => h p (List.mem_append_right _ hp)
    simp only [eval, hleft, hright]

theorem evalAll_congr (functions : Functions) {l l' : Lookup} :
    ∀ arguments : List Expr, (∀ path ∈ allPathsOf arguments, l.path? path = l'.path? path) →
      evalAll functions l arguments = evalAll functions l' arguments
  | [], _ => rfl
  | e :: rest, h => by
    have hfirst := eval_congr functions e fun p hp => h p (List.mem_append_left _ hp)
    have hrest := evalAll_congr functions rest fun p hp => h p (List.mem_append_right _ hp)
    simp only [evalAll, hfirst, hrest]

end

theorem mem_paths {e : Expr} {path : String} : path ∈ e.paths ↔ path ∈ e.allPaths :=
  List.mem_eraseDups

end Expr

/-- The stock evaluator reads the paths that it names and no others. -/
theorem Evaluator.evaluate_stock_congr (functions : Functions) {l l' : Lookup} {condition : String}
    (h : ∀ path ∈ (stock functions).identifiers condition, l.path? path = l'.path? path) :
    (stock functions).evaluate condition l = (stock functions).evaluate condition l' := by
  simp only [stock, ofFunctions] at h ⊢
  cases hparse : Expr.parse condition with
  | error fault => rfl
  | ok e =>
    rw [hparse] at h
    have heval : e.eval (functions ++ Builtin.functions) l =
        e.eval (functions ++ Builtin.functions) l' :=
      e.eval_congr _ fun path hpath => h path (Expr.mem_paths.2 hpath)
    simp only [heval]

/-! ## Rendering -/

/-- Two lookups are alike on the names of variables and on the conditions of branches. -/
structure Lookup.Alike (evaluator : Evaluator) (l l' : Lookup) (names : List String)
    (branches : List Branch) : Prop where
  named : ∀ name ∈ names, l.resolve? name = l'.resolve? name
  values : ∀ branch ∈ branches, ∀ condition ∈ branch.expression,
    evaluator.evaluate condition l = evaluator.evaluate condition l'
  paths : ∀ branch ∈ branches, ∀ condition ∈ branch.expression,
    ∀ path ∈ evaluator.identifiers condition, l.path? path = l'.path? path

section

variable {evaluator : Evaluator} {mappers : List Mapper} {l l' : Lookup}

theorem Lookup.Alike.mono {names names' : List String} {branches branches' : List Branch}
    (h : Alike evaluator l l' names branches) (hnames : names' ⊆ names)
    (hbranches : branches' ⊆ branches) : Alike evaluator l l' names' branches' where
  named := fun name hname => h.named name (hnames hname)
  values := fun branch hbranch => h.values branch (hbranches hbranch)
  paths := fun branch hbranch => h.paths branch (hbranches hbranch)

theorem Draft.withVariable_congr {name : String} (h : l.resolve? name = l'.resolve? name)
    (d : Draft) (use : Value → Draft → Draft) :
    d.withVariable l name use = d.withVariable l' name use := by
  simp only [withVariable, h]

/-- A condition has the same outcome, and the event of it shows the same values. -/
theorem Surroundings.decide_congr {names : List String} {branches : List Branch}
    (h : l.Alike evaluator l' names branches) {branch : Branch} (hbranch : branch ∈ branches)
    {condition : String} (hcondition : branch.expression = some condition) (d : Draft)
    {next next' : Bool → Draft → Progress} (hnext : ∀ b d, next b d = next' b d) :
    decide ⟨l, evaluator, mappers⟩ condition d next =
      decide ⟨l', evaluator, mappers⟩ condition d next' := by
  have hvalue := h.values branch hbranch condition hcondition
  have hevent : evaluated ⟨l, evaluator, mappers⟩ condition =
      evaluated ⟨l', evaluator, mappers⟩ condition := by
    funext b
    have hreadings := List.map_congr_left fun path hpath =>
      congrArg (PathReading.mk path) (h.paths branch hbranch condition hcondition path hpath)
    simp only [evaluated, hreadings]
  simp only [decide, hvalue, hevent, hnext]

mutual

/-- Rendering a node takes the same course under lookups that are alike on what it mentions. -/
theorem Node.render_congr :
    ∀ (node : Node) (start : NodeId), l.Alike evaluator l' node.names (node.branches start) →
      ∀ d, node.render ⟨l, evaluator, mappers⟩ start d =
        node.render ⟨l', evaluator, mappers⟩ start d
  | .text content, start, _, d => rfl
  | .bind name paren, start, h, d => by
    simp only [Node.render]
    exact Draft.withVariable_congr (h.named name (List.mem_singleton.2 rfl)) d _
  | .embedded name quoted, start, h, d => by
    simp only [Node.render]
    exact Draft.withVariable_congr (h.named name (List.mem_singleton.2 rfl)) d _
  | .chain condition position body rest, start, h, d => by
    simp only [Node.names, Node.branches] at h
    have hbody := Node.renderAll_congr body start (h.mono (by simp) (by simp))
    have hrest := Chain.render_congr rest (start + Node.countAll body + 1)
      (h.mono (by simp) (by simp))
    simp only [Node.render]
    apply Surroundings.decide_congr h List.mem_cons_self rfl
    intro b d
    simp only [hbody, hrest]
  | .block body, start, h, d => by
    have hbody := Node.renderAll_congr body start h
    simp only [Node.render, hbody]

theorem Chain.render_congr :
    ∀ (chain : Chain) (start : NodeId),
      l.Alike evaluator l' chain.names (chain.branches start) →
      ∀ number d, chain.render ⟨l, evaluator, mappers⟩ start number d =
        chain.render ⟨l', evaluator, mappers⟩ start number d
  | .done, start, _, number, d => rfl
  | .elseIf condition position body rest, start, h, number, d => by
    simp only [Chain.names, Chain.branches] at h
    have hbody := Node.renderAll_congr body start (h.mono (by simp) (by simp))
    have hrest := Chain.render_congr rest (start + Node.countAll body + 1)
      (h.mono (by simp) (by simp))
    simp only [Chain.render]
    apply Surroundings.decide_congr h List.mem_cons_self rfl
    intro b d
    simp only [hbody, hrest]
  | .otherwise position body, start, h, number, d => by
    simp only [Chain.names, Chain.branches] at h
    have hbody := Node.renderAll_congr body start (h.mono (by simp) (by simp))
    simp only [Chain.render, hbody]

theorem Node.renderAll_congr :
    ∀ (nodes : List Node) (start : NodeId),
      l.Alike evaluator l' (Node.namesAll nodes) (Node.branchesAll start nodes) →
      ∀ d, Node.renderAll ⟨l, evaluator, mappers⟩ start nodes d =
        Node.renderAll ⟨l', evaluator, mappers⟩ start nodes d
  | [], start, _, d => rfl
  | node :: rest, start, h, d => by
    simp only [Node.namesAll, Node.branchesAll] at h
    have hnode := Node.render_congr node start (h.mono (by simp) (by simp))
    have hrest := Node.renderAll_congr rest (start + node.count) (h.mono (by simp) (by simp))
    have hrest' := funext hrest
    simp only [Node.renderAll, hnode, hrest']

end

end

/-! ## Templates -/

/-- The first segment of a path, which is the name of a parameter. -/
def Name.head (path : String) : String :=
  String.ofList ((Text.segments '.' path.toList).headD [])

/-- Following a path in the provided way asks for its first segment and for no other name. -/
theorem Lookup.follow?_congr {get? get?' : String → Option Value} {path : String}
    (h : get? (Name.head path) = get?' (Name.head path)) :
    follow? get? path = follow? get?' path := by
  unfold Name.head at h
  unfold follow?
  split
  · rfl
  · next head segments hsegments =>
    rw [hsegments, List.headD_cons] at h
    rw [h]

theorem Parameters.get?_insert (p : Parameters) (name other : String) (v : Value) :
    (p.insert name v).get? other = if other = name then some v else p.get? other :=
  Table.get?_insert ..

namespace Template

/-- The names that a template mentions: its variables, and the paths of its conditions. -/
def mentioned (t : Template) (evaluator : Evaluator) : List String :=
  t.parameters ++ t.branches.flatMap fun branch =>
    branch.expression.toList.flatMap evaluator.identifiers

/-- Whether a parameter is mentioned, by itself or at the head of a path. -/
def Mentions (t : Template) (evaluator : Evaluator) (name : String) : Prop :=
  ∃ path ∈ t.mentioned evaluator, name = path ∨ name = Name.head path

/-- The two lookups give the same answers wherever the template asks: for its variables, and for
the paths of the conditions of its branches. -/
structure SameAnswers (t : Template) (evaluator : Evaluator) (l l' : Lookup) : Prop where
  has : ∀ name ∈ t.parameters, l.has name = l'.has name
  get? : ∀ name ∈ t.parameters, l.get? name = l'.get? name
  path? : ∀ name ∈ t.parameters, l.path? name = l'.path? name
  conditions : ∀ branch ∈ t.branches, ∀ condition ∈ branch.expression,
    ∀ path ∈ evaluator.identifiers condition, l.path? path = l'.path? path

variable {t : Template} {evaluator : Evaluator}

theorem SameAnswers.alike {functions : Functions} {l l' : Lookup}
    (h : t.SameAnswers (.stock functions) l l') :
    l.Alike (.stock functions) l' (Node.namesAll t.tree.nodes) t.branches where
  named := by
    intro name hname
    have hmem : name ∈ t.parameters := List.mem_eraseDups.2 hname
    simp only [Lookup.resolve?, h.has name hmem, h.get? name hmem, h.path? name hmem]
  values := by
    intro branch hbranch condition hcondition
    exact Evaluator.evaluate_stock_congr functions
      (h.conditions branch hbranch condition hcondition)
  paths := h.conditions

/-- Parameters that agree on what a template mentions answer it alike. -/
theorem sameAnswers_of_get? {p q : Parameters}
    (h : ∀ name, t.Mentions evaluator name → p.get? name = q.get? name) :
    t.SameAnswers evaluator p.lookup q.lookup := by
  have hpath {path : String} (hmem : path ∈ t.mentioned evaluator) :
      p.lookup.path? path = q.lookup.path? path :=
    Lookup.follow?_congr (h (Name.head path) ⟨path, hmem, .inr rfl⟩)
  have hvariable {name : String} (hmem : name ∈ t.parameters) : name ∈ t.mentioned evaluator :=
    List.mem_append_left _ hmem
  refine ⟨fun name hmem => ?_, fun name hmem => ?_, fun name hmem => ?_, ?_⟩
  · exact congrArg Option.isSome (h name ⟨name, hvariable hmem, .inl rfl⟩)
  · exact h name ⟨name, hvariable hmem, .inl rfl⟩
  · exact hpath (hvariable hmem)
  · intro branch hbranch condition hcondition path hmem
    have hread : path ∈ branch.expression.toList.flatMap evaluator.identifiers :=
      List.mem_flatMap.2 ⟨condition, Option.mem_toList.2 hcondition, hmem⟩
    exact hpath (List.mem_append_right _ (List.mem_flatMap.2 ⟨branch, hbranch, hread⟩))

end Template

namespace Renderer

/-- The whole course of a run is the same under lookups that answer a template alike. -/
theorem run_congr {functions : Functions} {t : Template} {l l' : Lookup}
    (h : t.SameAnswers (.stock functions) l l') (settings : Settings) (mappers : List Mapper)
    (recorded : Bool) :
    run ⟨settings, .stock functions, mappers⟩ recorded t l =
      run ⟨settings, .stock functions, mappers⟩ recorded t l' := by
  have hrender (d : Draft) : Node.renderAll ⟨l, .stock functions, mappers⟩ 0 t.tree.nodes d =
      Node.renderAll ⟨l', .stock functions, mappers⟩ 0 t.tree.nodes d :=
    Node.renderAll_congr t.tree.nodes 0 h.alike d
  simp only [run, runTree, Tree.render, hrender]

/-- A template cannot tell two lookups apart that give the same answers to its variables and to the
paths of its conditions: the result is the same, with all of its parts, and so is the course of the
run. So parameters that the template does not mention do not matter. -/
theorem reads_mentioned_only (settings : Settings) (functions : Functions) (mappers : List Mapper)
    (t : Template) :
    let r : Renderer := ⟨settings, .stock functions, mappers⟩
    (∀ l l' : Lookup, t.SameAnswers r.evaluator l l' →
      r.transform t l = r.transform t l' ∧ ∀ recorded, r.run recorded t l = r.run recorded t l') ∧
    ∀ p q : Parameters, (∀ name, t.Mentions r.evaluator name → p.get? name = q.get? name) →
      r.transform t p.lookup = r.transform t q.lookup := by
  intro r
  have hsame (l l' : Lookup) (h : t.SameAnswers r.evaluator l l') (recorded : Bool) :
      r.run recorded t l = r.run recorded t l' := run_congr h settings mappers recorded
  refine ⟨fun l l' h => ⟨?_, hsame l l' h⟩, fun p q h => ?_⟩
  · exact congrArg Run.result (hsame l l' h settings.coverage)
  · exact congrArg Run.result (hsame _ _ (Template.sameAnswers_of_get? h) settings.coverage)

/-- A template with a condition on a path, a call, a path as a variable and an optional block. -/
def usersQuery : Template where
  name := none
  source :=
    "/*IF user.age > 17 && SF.isNotEmpty(tags)*/a = /*user.name*/'x'/*END*//*BEGIN*/:b/*END*/"
  tree := ⟨[.chain "user.age > 17 && SF.isNotEmpty(tags)" ⟨0, 1, 1⟩
    [.text "a = ", .bind "user.name" false] .done, .block [.bind "b" false]]⟩
  ofSource_source := by with_unfolding_all rfl

def usersParameters : Parameters :=
  .ofList [("user", .ofEntries [("age", .int 41), ("name", .string "Ann")]),
    ("tags", .list [.null])]

/-- A further parameter, and one whose name is only the last segment of a path, do not matter. -/
theorem reads_mentioned_only_usersQuery :
    let p := usersParameters
    let q := (usersParameters.insert "name" (.string "Bob")).insert "other" .null
    usersQuery.SameAnswers stock.evaluator p.lookup q.lookup ∧
      stock.transform usersQuery p.lookup = stock.transform usersQuery q.lookup := by
  intro p q
  have hnames : ∀ path ∈ usersQuery.mentioned stock.evaluator, ∀ name ∈ [path, Name.head path],
      name ≠ "other" ∧ name ≠ "name" := by decide +kernel
  have hagree : ∀ name, usersQuery.Mentions stock.evaluator name → p.get? name = q.get? name := by
    rintro name ⟨path, hpath, hname⟩
    obtain ⟨hother, hlast⟩ := hnames path hpath name (by simpa using hname)
    rw [Parameters.get?_insert, if_neg hother, Parameters.get?_insert, if_neg hlast]
  have hsame := Template.sameAnswers_of_get? hagree
  exact ⟨hsame, ((reads_mentioned_only {} [] [] usersQuery).1 _ _ hsame).1⟩

end Renderer

end TwoWaySql
