import TwoWaySql.Renderer
import TwoWaySql.Sheet

/-!
# Rendering on sheets

A sheet that is on stays on: a switch is set where a branch is entered, and it is as the one before
it. So nothing that is rendered on a sheet is kept from its draft. `ComesTo c x p`: the course `c`,
taken from the sheet `x`, leaves the switches of `x` as they were and does with its draft what the
step `p` does. This file

1. has one lemma for each way in which courses are put together;
2. follows rendering with them, over the tree (`Node.renderOn_comesTo`);
3. concludes that every node leaves the switches of any sheet as it found them
   (`Node.switches_renderOn`), and that a run renders its tree on a sheet
   (`Renderer.runTree_eq`).
-/

namespace TwoWaySql

namespace Sheet

variable {x y : Sheet}

@[simp]
theorem isOn_change (x : Sheet) (f : Draft → Draft) : (x.change f).isOn = x.isOn := rfl

theorem isOn_congr (h : y.switches = x.switches) : y.isOn = x.isOn := by
  rw [isOn, isOn, h]

theorem write_of_on (h : x.isOn = true) (content : String) :
    x.write content = x.change (·.write content) := if_pos h

theorem bind_of_on (h : x.isOn = true) (name : String) (v : Value) :
    x.bind name v = x.change (·.bind name v) := if_pos h

theorem isOn_enter (h : x.isOn = true) : (x.enter true).isOn = true := by
  show (true && x.isOn) = true
  rw [h]
  rfl

/-- The branch that was entered last is the one that is left. -/
theorem leave_of_switches {on : Bool} (h : y.switches = on :: x.switches) (hx : x.isOn = true) :
    y.leave.switches = x.switches := by
  have hlength : 1 < y.switches.length := by
    rw [h]
    cases hs : x.switches with
    | nil =>
      rw [isOn, hs] at hx
      cases hx
    | cons b rest => exact Nat.succ_lt_succ (Nat.succ_pos _)
  rw [leave, if_pos hlength]
  show y.switches.tail = _
  rw [h]
  rfl

theorem leave_draft (x : Sheet) : x.leave.draft = x.draft := by
  unfold leave
  split <;> rfl

/-- Fragments of a block reach a sheet that is on as they reach a draft. -/
theorem takeOver_of_on (h : x.isOn = true) (f : Fragment) :
    takeOver f x = x.change fun d => { d with fragments := Fragment.push f d.fragments } := by
  cases f with
  | text content => exact write_of_on h content
  | placeholder => rfl

theorem foldr_takeOver (h : x.isOn = true) (fragments : List Fragment) :
    fragments.foldr takeOver x =
      x.change fun d => { d with fragments := fragments.foldr Fragment.push d.fragments } := by
  induction fragments with
  | nil => rfl
  | cons f rest ih =>
    rw [List.foldr_cons, ih, takeOver_of_on ((isOn_change x _).trans h)]
    rfl

theorem whenOn_of_on (h : x.isOn = true) (course : Sheet → Course) : x.whenOn course = course x :=
  if_pos h

theorem whenOn_of_off (h : ¬ x.isOn = true) (course : Sheet → Course) : x.whenOn course = .step x :=
  if_neg h

end Sheet

namespace Course

/-- The course, taken from the sheet `x`, does what the step does. Where that fails, the events are
what is left of its draft. -/
structure ComesTo (c : Course) (x : Sheet) (p : Progress) : Prop where
  switches : c.last.switches = x.switches
  failure : c.failure = p.failure
  events : c.last.draft.events = p.draft.events
  draft : p.failure = none → c.last.draft = p.draft

namespace ComesTo

variable {c : Course} {x y : Sheet} {p : Progress}

theorem step (h : y.switches = x.switches) : (Course.step y).ComesTo x (.done y.draft) :=
  ⟨h, rfl, rfl, fun _ => rfl⟩

theorem failed (x : Sheet) (e : Error) : (Course.failed x e).ComesTo x (.failed x.draft e) :=
  ⟨rfl, rfl, rfl, fun h => by cases h⟩

/-- Only the switches count of the sheet that a course is taken from. -/
theorem startingFrom (h : c.ComesTo y p) (hy : y.switches = x.switches) : c.ComesTo x p :=
  { h with switches := h.switches.trans hy }

theorem via {next : Sheet → Course} (hy : y.switches = x.switches)
    (h : (next y).ComesTo y p) : (Course.via y next).ComesTo x p :=
  { h.startingFrom hy with }

theorem andThen {next : Sheet → Course} {f : Draft → Progress} (h : c.ComesTo x p)
    (hnext : ∀ y, y.switches = x.switches → (next y).ComesTo y (f y.draft)) :
    (c.andThen next).ComesTo x (p.andThen f) := by
  have hfailure := h.failure
  unfold Course.andThen Progress.andThen
  cases hp : p.failure with
  | none =>
    rw [hp] at hfailure
    rw [hfailure]
    have hn := hnext c.last h.switches
    rw [h.draft hp] at hn
    exact ⟨hn.switches.trans h.switches, hn.failure, hn.events, hn.draft⟩
  | some e =>
    rw [hp] at hfailure
    rw [hfailure]
    exact h

/-! ## Variables -/

/-- A variable is used on the sheet kept live, or it is noted as absent. -/
theorem withVariable (l : Lookup) (name : String) {use : Value → Sheet → Course}
    {use' : Value → Draft → Draft} (hx : x.isOn = true)
    (huse : ∀ v y, y.isOn = true → (use v y).ComesTo y (.done (use' v y.draft))) :
    (x.withVariable l name use).ComesTo x (x.draft.withVariable l name use') := by
  unfold Sheet.withVariable Draft.withVariable
  cases l.resolve? name with
  | error fault => exact failed x _
  | ok found =>
    cases found with
    | some v => exact via rfl (huse v _ hx)
    | none =>
      dsimp only
      split
      · exact step rfl
      · exact failed x _

theorem write (hx : x.isOn = true) (content : String) :
    (Course.step (x.write content)).ComesTo x (.done (x.draft.write content)) := by
  rw [Sheet.write_of_on hx]
  exact step rfl

theorem bind (hx : x.isOn = true) (name : String) (v : Value) :
    (Course.step (x.bind name v)).ComesTo x (.done (x.draft.bind name v)) := by
  rw [Sheet.bind_of_on hx]
  exact step rfl

theorem viaWrite {next : Sheet → Course} (hx : x.isOn = true) (content : String)
    (h : (next (x.change (·.write content))).ComesTo (x.change (·.write content)) p) :
    (Course.via (x.write content) next).ComesTo x p := by
  rw [Sheet.write_of_on hx]
  exact via rfl h

theorem viaBind {next : Sheet → Course} (hx : x.isOn = true) (name : String) (v : Value)
    (h : (next (x.change (·.bind name v))).ComesTo (x.change (·.bind name v)) p) :
    (Course.via (x.bind name v) next).ComesTo x p := by
  rw [Sheet.bind_of_on hx]
  exact via rfl h

theorem bindItems (mappers : List Mapper) (name : String) (items : List Value) {x : Sheet}
    (hx : x.isOn = true) :
    (Sheet.bindItems mappers name items x).ComesTo x
      (.done (x.draft.bindItems mappers name items)) := by
  induction items generalizing x with
  | nil => exact step rfl
  | cons v rest ih =>
    -- a comma stands behind an item only if there is a next one
    cases rest with
    | nil => exact bind hx name _
    | cons w rest =>
      refine viaBind hx name _ (viaWrite ?_ ", " (ih ?_))
      · exact hx
      · exact hx

theorem bindMapped (mappers : List Mapper) (name : String) (v : Value) (hx : x.isOn = true) :
    (Sheet.bindMapped mappers name v x).ComesTo x
      (.done (Draft.bindMapped mappers name v x.draft)) := by
  cases v with
  | list items =>
    cases items with
    | nil => exact write hx "NULL"
    | cons v rest => exact bindItems mappers name (v :: rest) hx
  | _ => exact bind hx name _

theorem bindVariable (mappers : List Mapper) (name : String) (paren : Bool) (v : Value)
    (hx : x.isOn = true) :
    (Sheet.bindVariable mappers name paren v x).ComesTo x
      (.done (Draft.bindVariable mappers name paren v x.draft)) := by
  cases paren with
  | false => exact bindMapped mappers name _ hx
  | true =>
    have hopen : (Course.via (x.write "(")
        (Sheet.bindMapped mappers name (Mapper.bindAll mappers v))).ComesTo x
        (.done (Draft.bindMapped mappers name (Mapper.bindAll mappers v) (x.draft.write "("))) :=
      viaWrite hx "(" (bindMapped mappers name _ hx)
    have hclose (y : Sheet) (hy : y.switches = x.switches) :
        (Course.step (y.write ")")).ComesTo y (.done (y.draft.write ")")) :=
      write ((Sheet.isOn_congr hy).trans hx) ")"
    exact hopen.andThen (f := fun d => .done (d.write ")")) hclose

/-! ## Branches and blocks -/

/-- A condition that fails ends the course; one that holds or not leads on. -/
theorem decideOn (s : Surroundings) (condition : String) {next : Bool → Sheet → Course}
    {step : Bool → Draft → Progress}
    (hnext : ∀ b y, y.switches = x.switches → (next b y).ComesTo y (step b y.draft)) :
    (s.decideOn condition x next).ComesTo x (s.decide condition x.draft step) := by
  unfold Surroundings.decideOn Surroundings.decide
  cases s.evaluator.evaluate condition s.lookup with
  | error e => exact failed x e
  | ok v =>
    cases v with
    | bool b =>
      dsimp only
      split
      · exact (hnext b (x.change (·.log (s.evaluated condition b))) rfl).startingFrom rfl
      · exact hnext b x rfl
    | _ => exact failed x _

/-- The switch of a branch that is entered is on, and it goes away behind the body. -/
theorem within {body : Sheet → Course} {step : Draft → Progress} (hx : x.isOn = true)
    (branch : NodeId) (outcome : Outcome)
    (hbody : ∀ y, y.isOn = true → (body y).ComesTo y (step y.draft)) :
    (x.within branch outcome body).ComesTo x (step (x.draft.enter branch outcome)) := by
  have hb := hbody _ (Sheet.isOn_enter (x := ((x.change (·.record branch .passed)).change
    (·.log (.resolvedChain outcome))).change .markLive) hx)
  refine via rfl (via rfl ⟨?_, hb.failure, ?_, ?_⟩)
  · exact Sheet.leave_of_switches hb.switches hx
  · show (Sheet.leave _).draft.events = _
    rw [Sheet.leave_draft]
    exact hb.events
  · intro hnone
    show (Sheet.leave _).draft = _
    rw [Sheet.leave_draft]
    exact hb.draft hnone

theorem settle (x inner : Sheet) (hx : x.isOn = true) :
    (x.around.settle inner).ComesTo x (x.draft.settle inner.draft) := by
  unfold Sheet.settle Draft.settle
  cases inner.draft.live with
  | false => exact step rfl
  | true =>
    cases inner.draft.absent with
    | cons name rest => exact ⟨rfl, rfl, rfl, fun h => by cases h⟩
    | nil =>
      rw [if_pos rfl, if_pos rfl]
      dsimp only
      have hon : ((x.around.resume inner).change .markLive).isOn = true := hx
      rw [Sheet.absorb, Sheet.foldr_takeOver hon]
      exact step rfl

theorem block {body : Sheet → Course} {step : Draft → Progress} (hx : x.isOn = true)
    (hbody : ∀ y, y.isOn = true → (body y).ComesTo y (step y.draft)) :
    (x.block body).ComesTo x ((step x.draft.inside).andThen x.draft.settle) := by
  have hb := hbody x.inside hx
  have hfailure : (Course.via x.inside body).failure = (step x.draft.inside).failure := hb.failure
  suffices h : (x.around.endBlock (Course.via x.inside body)).ComesTo x
      ((step x.draft.inside).andThen x.draft.settle) from
    ⟨h.switches, h.failure, h.events, h.draft⟩
  unfold Sheet.endBlock Progress.andThen
  cases hp : (step x.draft.inside).failure with
  | none =>
    rw [hfailure, hp]
    have hdraft : (body x.inside).last.draft = (step x.draft.inside).draft := hb.draft hp
    dsimp only
    rw [← hdraft]
    exact settle x (body x.inside).last hx
  | some e =>
    rw [hfailure, hp]
    refine ⟨rfl, hp.symm, hb.events, fun h => ?_⟩
    cases hp.symm.trans h

/-- Where the sheet is on the course is taken. -/
theorem whenOn {course : Sheet → Course} (hx : x.isOn = true) (h : (course x).ComesTo x p) :
    (x.whenOn course).ComesTo x p := by
  rwa [Sheet.whenOn_of_on hx]

end ComesTo

end Course

/-! ## Trees -/

mutual

/-- Rendering a node on a sheet that is on comes to rendering it. -/
theorem Node.renderOn_comesTo (s : Surroundings) :
    ∀ (node : Node) (start : NodeId) (x : Sheet), x.isOn = true →
      (node.renderOn s start x).ComesTo x (node.render s start x.draft)
  | .text content, start, x, hx => by
    simp only [Node.renderOn, Node.render]
    exact .whenOn hx (.write hx content)
  | .bind name paren, start, x, hx => by
    simp only [Node.renderOn, Node.render]
    refine .whenOn hx (.withVariable s.lookup name hx fun v y hy => ?_)
    exact .bindVariable s.mappers name paren v hy
  | .embedded name quoted, start, x, hx => by
    simp only [Node.renderOn, Node.render]
    refine .whenOn hx (.withVariable s.lookup name hx fun v y hy => ?_)
    exact .write hy (Mapper.literalAll s.mappers v quoted)
  | .chain condition _ body rest, start, x, hx => by
    simp only [Node.renderOn, Node.render]
    refine .whenOn hx (.decideOn s condition fun holds y hy => ?_)
    have hy : y.isOn = true := (Sheet.isOn_congr hy).trans hx
    cases holds with
    | true => exact .within hy _ .first (Node.renderAllOn_comesTo s body start)
    | false => exact .via rfl (Chain.renderOn_comesTo s rest _ _ _ hy)
  | .block body, start, x, hx => by
    simp only [Node.renderOn, Node.render]
    exact .whenOn hx (.block hx (Node.renderAllOn_comesTo s body start))

theorem Chain.renderOn_comesTo (s : Surroundings) :
    ∀ (chain : Chain) (start : NodeId) (number : Nat) (x : Sheet), x.isOn = true →
      (chain.renderOn s start number x).ComesTo x (chain.render s start number x.draft)
  | .done, start, number, x, hx => by
    simp only [Chain.renderOn, Chain.render]
    exact .step rfl
  | .elseIf condition _ body rest, start, number, x, hx => by
    simp only [Chain.renderOn, Chain.render]
    refine .decideOn s condition fun holds y hy => ?_
    have hy : y.isOn = true := (Sheet.isOn_congr hy).trans hx
    cases holds with
    | true => exact .within hy _ (.elseIf number) (Node.renderAllOn_comesTo s body start)
    | false => exact .via rfl (Chain.renderOn_comesTo s rest _ _ _ hy)
  | .otherwise _ body, start, number, x, hx => by
    simp only [Chain.renderOn, Chain.render]
    exact .within hx _ .otherwise (Node.renderAllOn_comesTo s body start)

theorem Node.renderAllOn_comesTo (s : Surroundings) :
    ∀ (nodes : List Node) (start : NodeId) (x : Sheet), x.isOn = true →
      (Node.renderAllOn s start nodes x).ComesTo x (Node.renderAll s start nodes x.draft)
  | [], start, x, hx => by
    simp only [Node.renderAllOn, Node.renderAll]
    exact .step rfl
  | node :: rest, start, x, hx => by
    simp only [Node.renderAllOn, Node.renderAll]
    refine (Node.renderOn_comesTo s node start x hx).andThen fun y hy => ?_
    exact Node.renderAllOn_comesTo s rest _ y ((Sheet.isOn_congr hy).trans hx)

end

/-- A node leaves the switches of any sheet as it finds them, also where it fails. -/
theorem Node.switches_renderOn (s : Surroundings) (node : Node) (start : NodeId) (x : Sheet) :
    (node.renderOn s start x).last.switches = x.switches := by
  by_cases hx : x.isOn = true
  · exact (Node.renderOn_comesTo s node start x hx).switches
  · cases node <;> rw [Node.renderOn, Sheet.whenOn_of_off hx] <;> rfl

/-- So do nodes in a row. -/
theorem Node.switches_renderAllOn (s : Surroundings) (nodes : List Node) (start : NodeId)
    (x : Sheet) : (Node.renderAllOn s start nodes x).last.switches = x.switches := by
  induction nodes generalizing start x with
  | nil => rw [Node.renderAllOn]; rfl
  | cons node rest ih =>
    have hnode := Node.switches_renderOn s node start x
    rw [Node.renderAllOn, Course.andThen]
    split
    · exact (ih _ _).trans hnode
    · exact hnode

/-! ## Runs -/

/-- The run of a tree with the given name, as its course says. -/
def Course.run (c : Course) (settings : Settings) (name : String) : Run :=
  match c.failure with
  | some e => ⟨.error e, c.last.draft.events.reverse⟩
  | none =>
    let statement := c.last.draft.statement settings
    let event := .transformedTemplate name statement.binds.length
    ⟨.ok statement, (event :: c.last.draft.events).reverse⟩

namespace Renderer

/-- The course of a run of a tree. -/
def course (r : Renderer) (recorded : Bool) (t : Tree) (l : Lookup) : Course :=
  t.renderOn ⟨l, r.evaluator, r.mappers⟩ (.blank recorded)

/-- A run renders its tree on a sheet. -/
theorem runTree_eq (r : Renderer) (recorded : Bool) (name : String) (t : Tree) (l : Lookup) :
    r.runTree recorded name t l = (r.course recorded t l).run r.settings name := by
  have h := Node.renderAllOn_comesTo ⟨l, r.evaluator, r.mappers⟩ t.nodes 0 (.blank recorded) rfl
  have hcourse : (r.course recorded t l).ComesTo (.blank recorded)
      (t.render ⟨l, r.evaluator, r.mappers⟩ (.blank recorded)) := .via rfl h
  rw [Course.run, hcourse.failure, hcourse.events, runTree]
  dsimp only
  cases hp : (t.render ⟨l, r.evaluator, r.mappers⟩ (.blank recorded)).failure with
  | some e => rfl
  | none =>
    dsimp only
    rw [hcourse.draft hp]

end Renderer

end TwoWaySql
