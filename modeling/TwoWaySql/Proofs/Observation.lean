import TwoWaySql.Proofs.Rendering

/-!
# Recording branches is observation

Coverage is kept on the draft itself: it goes into the draft of every optional block and comes back
when the block is settled, be it discarded or not. A step is oblivious of it (`Oblivious`) if taking
the coverage away before the step or behind it comes to the same, and if the step leaves a coverage
where there was one. What is proved:

1. the steps that rendering is made of are oblivious, and so is what is put together from them;
2. so rendering is oblivious, from every draft and inside any optional blocks
   (`Node.render_oblivious`);
3. a run takes the same course whether branches are recorded or not, and an observer is told of the
   coverage of a run that succeeds, once, and of nothing else (`Renderer.recording_observes`).
-/

namespace TwoWaySql

/-- The draft without its coverage. -/
def Draft.unrecorded (d : Draft) : Draft := { d with coverage := none }

def Progress.unrecorded (p : Progress) : Progress := { p with draft := p.draft.unrecorded }

/-- The step neither reads the coverage nor loses it. -/
structure Oblivious (step : Draft → Progress) : Prop where
  same : ∀ d, step d.unrecorded = (step d).unrecorded
  kept : ∀ d, (step d).draft.coverage.isSome = d.coverage.isSome

namespace Oblivious

variable {step next : Draft → Progress}

theorem done : Oblivious .done := ⟨fun _ => rfl, fun _ => rfl⟩

theorem failed (e : Error) : Oblivious (.failed · e) := ⟨fun _ => rfl, fun _ => rfl⟩

theorem andThen (h : Oblivious step) (hnext : Oblivious next) :
    Oblivious fun d => (step d).andThen next where
  same := by
    intro d
    rw [h.same]
    obtain ⟨d', failure⟩ := step d
    cases failure with
    | none => exact hnext.same d'
    | some e => rfl
  kept := by
    intro d
    rw [← h.kept d]
    obtain ⟨d', failure⟩ := step d
    cases failure with
    | none => exact hnext.kept d'
    | some e => rfl

/-- A change of the draft in front of a step. -/
theorem behind (h : Oblivious step) {change : Draft → Draft}
    (hsame : ∀ d : Draft, change d.unrecorded = (change d).unrecorded)
    (hkept : ∀ d : Draft, (change d).coverage.isSome = d.coverage.isSome) :
    Oblivious fun d => step (change d) where
  same := by
    intro d
    rw [hsame, h.same]
  kept := by
    intro d
    rw [h.kept, hkept]

theorem log (h : Oblivious step) (e : Event) : Oblivious fun d => step (d.log e) :=
  h.behind (fun _ => rfl) (fun _ => rfl)

theorem record (h : Oblivious step) (branch : NodeId) (state : BranchState) :
    Oblivious fun d => step (d.record branch state) :=
  h.behind (fun _ => rfl) (fun _ => Option.isSome_map)

theorem enter (h : Oblivious step) (branch : NodeId) (outcome : Outcome) :
    Oblivious fun d => step (d.enter branch outcome) :=
  h.behind (fun _ => rfl) (fun _ => Option.isSome_map)

theorem ite {c : Prop} [Decidable c] (h : Oblivious step) (hnext : Oblivious next) :
    Oblivious fun d => if c then step d else next d := by
  split
  · exact h
  · exact hnext

/-- A variable whose use writes some meaning onto the draft. -/
theorem withVariable (l : Lookup) (name : String) {use : Value → Draft → Draft}
    {pieces : Value → List Piece}
    (huse : ∀ v d, use v d = d.extend (.ofPieces (pieces v)) d.events) :
    Oblivious fun d => d.withVariable l name use := by
  unfold Draft.withVariable
  cases l.resolve? name with
  | error fault => exact failed _
  | ok found =>
    cases found with
    | some v =>
      simp only [huse]
      exact done.behind (fun _ => rfl) (fun _ => Option.isSome_map)
    | none =>
      simp only [Draft.noteAbsent_eq]
      refine ⟨fun d => ?_, fun d => ?_⟩
      · show (if d.optional then _ else _) = _
        split <;> rfl
      · split
        · exact Option.isSome_map
        · rfl

/-- A condition whose outcome leads on to one of two steps. -/
theorem decide (s : Surroundings) (condition : String) {next : Bool → Draft → Progress}
    (hnext : ∀ b, Oblivious (next b)) : Oblivious fun d => s.decide condition d next := by
  unfold Surroundings.decide
  cases s.evaluator.evaluate condition s.lookup with
  | error e => exact failed e
  | ok v =>
    cases v with
    | bool b =>
      by_cases htold : Surroundings.isTold condition = true
      · simp only [if_pos htold]
        exact (hnext b).log _
      · simp only [if_neg htold]
        exact hnext b
    | _ => exact failed _

/-- An optional block: its draft takes the coverage along and brings it back, discarded or not. -/
theorem block (h : Oblivious step) : Oblivious fun d => (step d.inside).andThen d.settle where
  same := by
    intro d
    have hinside : d.unrecorded.inside = d.inside.unrecorded := rfl
    rw [hinside, h.same]
    obtain ⟨inner, failure⟩ := step d.inside
    cases failure with
    | some e => rfl
    | none =>
      show d.unrecorded.settle inner.unrecorded = (d.settle inner).unrecorded
      unfold Draft.settle
      simp only [show inner.unrecorded.live = inner.live from rfl,
        show inner.unrecorded.absent = inner.absent from rfl]
      split
      · split <;> rfl
      · rfl
  kept := by
    intro d
    have hinside : d.inside.coverage = d.coverage := rfl
    rw [← hinside, ← h.kept d.inside]
    obtain ⟨inner, failure⟩ := step d.inside
    cases failure with
    | some e => rfl
    | none =>
      show (d.settle inner).draft.coverage.isSome = inner.coverage.isSome
      unfold Draft.settle
      split
      · split <;> rfl
      · rfl

end Oblivious

/-! ## Rendering -/

mutual

/-- Rendering a node is oblivious of what is recorded. -/
theorem Node.render_oblivious (s : Surroundings) :
    ∀ (node : Node) (start : NodeId), Oblivious fun d => node.render s start d
  | .text content, start => by
    simp only [Node.render]
    exact Oblivious.done.behind (fun _ => rfl) (fun _ => rfl)
  | .bind name paren, start => by
    simp only [Node.render]
    exact .withVariable s.lookup name (Draft.bindVariable_eq s.mappers name paren)
  | .embedded name quoted, start => by
    simp only [Node.render]
    exact .withVariable s.lookup name (Draft.embedVariable_eq s.mappers quoted)
  | .chain condition _ body rest, start => by
    simp only [Node.render]
    have hbody := Node.renderAll_oblivious s body start
    have hrest := Chain.render_oblivious s rest (start + Node.countAll body + 1) 1
    exact .decide s condition fun b => .ite (hbody.enter _ _) (hrest.record _ _)
  | .block body, start => by
    simp only [Node.render]
    exact (Node.renderAll_oblivious s body start).block

theorem Chain.render_oblivious (s : Surroundings) :
    ∀ (chain : Chain) (start : NodeId) (number : Nat),
      Oblivious fun d => chain.render s start number d
  | .done, start, number => by
    simp only [Chain.render]
    exact Oblivious.done.log _
  | .elseIf condition _ body rest, start, number => by
    simp only [Chain.render]
    have hbody := Node.renderAll_oblivious s body start
    have hrest := Chain.render_oblivious s rest (start + Node.countAll body + 1) (number + 1)
    exact .decide s condition fun b => .ite (hbody.enter _ _) (hrest.record _ _)
  | .otherwise _ body, start, number => by
    simp only [Chain.render]
    exact (Node.renderAll_oblivious s body start).enter _ _

theorem Node.renderAll_oblivious (s : Surroundings) :
    ∀ (nodes : List Node) (start : NodeId), Oblivious fun d => Node.renderAll s start nodes d
  | [], start => by
    simp only [Node.renderAll]
    exact .done
  | node :: rest, start => by
    simp only [Node.renderAll]
    exact (Node.render_oblivious s node start).andThen
      (Node.renderAll_oblivious s rest (start + node.count))

end

/-! ## Runs -/

namespace Renderer

/-- The renderer with the setting that says whether branches are recorded. -/
def withCoverage (r : Renderer) (recorded : Bool) : Renderer :=
  { r with settings := { r.settings with coverage := recorded } }

/-- Apart from the coverage itself, runs that record branches and runs that do not are the same. -/
theorem run_recorded (r : Renderer) (t : Template) (l : Lookup) :
    (r.run true t l).events = (r.run false t l).events ∧
    ((∃ e, ∀ recorded, (r.run recorded t l).result = .error e) ∨
    ∃ sql binds coverage, (r.run false t l).result = .ok ⟨sql, binds, none⟩ ∧
      (r.run true t l).result = .ok ⟨sql, binds, some coverage⟩) := by
  have hrender := Node.renderAll_oblivious ⟨l, r.evaluator, r.mappers⟩ t.tree.nodes 0
  have hkept := hrender.kept (.blank true)
  have hfalse : t.tree.render ⟨l, r.evaluator, r.mappers⟩ (.blank false) =
      (t.tree.render ⟨l, r.evaluator, r.mappers⟩ (.blank true)).unrecorded :=
    hrender.same (.blank true)
  cases htrue : t.tree.render ⟨l, r.evaluator, r.mappers⟩ (.blank true) with
  | mk d failure =>
    obtain ⟨coverage, hcoverage⟩ : ∃ coverage, d.coverage = some coverage := by
      rw [Tree.render] at htrue
      rw [htrue] at hkept
      exact Option.isSome_iff_exists.1 hkept
    rw [htrue] at hfalse
    unfold run runTree
    cases failure with
    | some e =>
      simp only [htrue, hfalse, Progress.unrecorded]
      refine ⟨rfl, .inl ⟨e, ?_⟩⟩
      rintro (_ | _)
      · simp only [hfalse, Progress.unrecorded]
      · simp only [htrue]
    | none =>
      simp only [htrue, hfalse, Progress.unrecorded]
      refine ⟨rfl, .inr ⟨_, _, coverage, rfl, ?_⟩⟩
      rw [← hcoverage]
      rfl

/-- Whether branches are recorded, by the settings or for an observer, makes no difference to the
outcome of a transformation or to its events. A statement carries a coverage exactly if branches are
recorded; an observer is told of it once, and of a transformation that fails it is told nothing. -/
theorem recording_observes {σ : Type} (r : Renderer) (observe : σ → Template → Coverage → σ)
    (state : σ) (t : Template) (l : Lookup) :
    (r.run true t l).events = (r.run false t l).events ∧
    ((∃ e, ∀ recorded, (r.withCoverage recorded).transform t l = .error e ∧
      (r.withCoverage recorded).transformObserved observe state t l = (.error e, state)) ∨
    ∃ sql binds coverage,
      (r.withCoverage false).transform t l = .ok ⟨sql, binds, none⟩ ∧
      (r.withCoverage true).transform t l = .ok ⟨sql, binds, some coverage⟩ ∧
      ∀ recorded, (r.withCoverage recorded).transformObserved observe state t l =
        (.ok ⟨sql, binds, some coverage⟩, observe state t coverage)) := by
  obtain ⟨hevents, hresult⟩ := r.run_recorded t l
  refine ⟨hevents, ?_⟩
  have hobserved (recorded : Bool) : (r.withCoverage recorded).transformObserved observe state t l =
      r.transformObserved observe state t l := rfl
  rcases hresult with ⟨e, herror⟩ | ⟨sql, binds, coverage, hfalse, htrue⟩
  · refine .inl ⟨e, fun recorded => ⟨herror recorded, ?_⟩⟩
    rw [hobserved, transformObserved, herror]
  · refine .inr ⟨sql, binds, coverage, hfalse, htrue, fun recorded => ?_⟩
    rw [hobserved, transformObserved, htrue]

end Renderer

end TwoWaySql
