import Mathlib.Data.List.Chain
import TwoWaySql.Proofs.Courses

/-!
# The parts of a sheet agree

Rendering changes one part of a draft here and another one there: fragments and values, absent
names, the mark that keeps a block, the switches around them. This file

1. says when the parts of a draft agree (`Draft.IsConsistent`), and with them the switches of its
   sheet (`Sheet.IsConsistent`), and shows it of every operation: what one operation preserves;
2. carries it along courses (`Course.Keeps`) and over the tree, so that it holds of every sheet that
   rendering passes, that of the statement and those of optional blocks, up to an error as well
   (`Node.renderOn_keeps`);
3. concludes that it holds throughout a run (`Renderer.sheets_consistent`).
-/

namespace TwoWaySql

/-! ## Fragments -/

namespace Fragment

/-- One of the two is no text. -/
def Apart (f g : Fragment) : Prop := f = .placeholder ∨ g = .placeholder

/-- Texts in a row are merged, and none of them is empty. -/
structure IsMerged (fragments : List Fragment) : Prop where
  apart : fragments.IsChain Apart
  nonempty : .text "" ∉ fragments

theorem isMerged_nil : IsMerged [] := ⟨.nil, List.not_mem_nil⟩

theorem IsMerged.placeholder {fragments : List Fragment} (h : IsMerged fragments) :
    IsMerged (.placeholder :: fragments) where
  apart := List.isChain_cons.2 ⟨fun _ _ => .inl rfl, h.apart⟩
  nonempty hmem := by
    rcases List.mem_cons.1 hmem with heq | hmem
    · cases heq
    · exact h.nonempty hmem

theorem IsMerged.text {content : String} {fragments : List Fragment} (h : IsMerged fragments)
    (hcontent : content ≠ "") (hhead : ∀ f ∈ fragments.head?, f = .placeholder) :
    IsMerged (.text content :: fragments) where
  apart := List.isChain_cons.2 ⟨fun f hf => .inr (hhead f hf), h.apart⟩
  nonempty hmem := by
    rcases List.mem_cons.1 hmem with heq | hmem
    · exact hcontent (Fragment.text.inj heq).symm
    · exact h.nonempty hmem

theorem IsMerged.tail {f : Fragment} {fragments : List Fragment} (h : IsMerged (f :: fragments)) :
    IsMerged fragments :=
  ⟨h.apart.tail, fun hmem => h.nonempty (List.mem_cons_of_mem _ hmem)⟩

/-- Behind a text stands a placeholder. -/
theorem IsMerged.head {content : String} {fragments : List Fragment}
    (h : IsMerged (.text content :: fragments)) : ∀ f ∈ fragments.head?, f = .placeholder := by
  intro f hf
  rcases (List.isChain_cons.1 h.apart).1 f hf with heq | heq
  · cases heq
  · exact heq

theorem IsMerged.push {fragments : List Fragment} (h : IsMerged fragments) (f : Fragment) :
    IsMerged (push f fragments) := by
  unfold Fragment.push
  split
  · next content before rest =>
    split
    · exact h
    · next hempty =>
      refine h.tail.text (fun heq => hempty ?_) h.head
      rw [String.append_eq_empty_iff] at heq
      rw [heq.2]
      rfl
  · next content hhead =>
    split
    · exact h
    · next hempty =>
      refine h.text (fun heq => hempty ?_) fun f hf => ?_
      · rw [heq]
        rfl
      · obtain ⟨rest, rfl⟩ := List.head?_eq_some_iff.1 hf
        cases f with
        | text before => exact (hhead before rest rfl).elim
        | placeholder => rfl
  · exact h.placeholder

theorem IsMerged.foldr_push {fragments : List Fragment} (h : IsMerged fragments)
    (inner : List Fragment) : IsMerged (inner.foldr Fragment.push fragments) := by
  induction inner with
  | nil => exact h
  | cons f rest ih => exact ih.push f

/-- Merging texts changes nothing about how many placeholders there are. -/
theorem count_push (f : Fragment) (fragments : List Fragment) :
    (push f fragments).count .placeholder = (f :: fragments).count .placeholder := by
  cases f with
  | placeholder => rfl
  | text content =>
    have hfront (content : String) (rest : List Fragment) :
        (text content :: rest).count .placeholder = rest.count .placeholder :=
      List.count_cons_of_ne (fun heq => by cases heq)
    unfold push
    split
    · split <;> simp only [hfront]
    · next heq _ =>
      cases heq
      split <;> simp only [hfront]
    · next heq => cases heq

theorem count_foldr_push (inner fragments : List Fragment) :
    (inner.foldr push fragments).count .placeholder =
      inner.count .placeholder + fragments.count .placeholder := by
  induction inner with
  | nil => rw [List.foldr_nil, List.count_nil, Nat.zero_add]
  | cons f rest ih => rw [List.foldr_cons, count_push, List.count_cons, ih, List.count_cons]; omega

end Fragment

/-! ## Drafts -/

/-- The parts of a draft agree. -/
structure Draft.IsConsistent (d : Draft) : Prop where
  /-- There are as many placeholders as values. -/
  placeholders : d.fragments.count .placeholder = d.binds.length
  /-- Values keep the block, if the draft is that of one. -/
  live : d.binds ≠ [] → d.live = true
  nodup : d.absent.Nodup
  /-- Names are noted as absent only in a block. -/
  absent : d.optional = false → d.absent = []
  merged : Fragment.IsMerged d.fragments
  /-- No block was discarded with values in it. -/
  discarded : ∀ fragments binds, .discardedBlock fragments binds ∈ d.events → binds = 0

namespace Draft.IsConsistent

variable {d inner : Draft}

theorem blank (recorded : Bool) : (Draft.blank recorded).IsConsistent where
  placeholders := rfl
  live h := absurd rfl h
  nodup := List.nodup_nil
  absent _ := rfl
  merged := Fragment.isMerged_nil
  discarded _ _ h := absurd h List.not_mem_nil

theorem write (h : d.IsConsistent) (content : String) : (d.write content).IsConsistent where
  placeholders := (Fragment.count_push (.text content) d.fragments).trans <| by
    rw [List.count_cons_of_ne (fun heq => by cases heq), h.placeholders]
    rfl
  live := h.live
  nodup := h.nodup
  absent := h.absent
  merged := h.merged.push (.text content)
  discarded := h.discarded

/-- A value is bound only where the draft is live already. -/
theorem bind (h : d.IsConsistent) (hlive : d.live = true) (name : String) (v : Value) :
    (d.bind name v).IsConsistent where
  placeholders := (Fragment.count_push .placeholder d.fragments).trans <| by
    rw [List.count_cons_self, h.placeholders]
    rfl
  live _ := hlive
  nodup := h.nodup
  absent := h.absent
  merged := h.merged.push .placeholder
  discarded := h.discarded

theorem markLive (h : d.IsConsistent) : d.markLive.IsConsistent :=
  { h with live := fun _ => rfl }

theorem record (h : d.IsConsistent) (branch : NodeId) (state : BranchState) :
    (d.record branch state).IsConsistent :=
  { h with }

theorem withCoverage (h : d.IsConsistent) (coverage : Option Coverage) :
    IsConsistent { d with coverage } :=
  { h with }

/-- An absent name is noted in a block, and once. -/
theorem noteAbsent (h : d.IsConsistent) (hoptional : d.optional = true) (name : String) :
    (d.noteAbsent name).IsConsistent := by
  unfold Draft.noteAbsent
  split
  · exact h
  · next hnew =>
    have hnodup : (d.absent ++ [name]).Nodup := by
      refine List.nodup_append.2 ⟨h.nodup, List.pairwise_singleton _ name, fun a ha b hb heq => ?_⟩
      rw [heq, List.mem_singleton.1 hb] at ha
      exact hnew (List.contains_iff_mem.2 ha)
    exact { h with
      nodup := hnodup
      absent := fun hnot => by cases hoptional.symm.trans hnot }

theorem log (h : d.IsConsistent) {e : Event}
    (he : ∀ fragments binds, e = .discardedBlock fragments binds → binds = 0) :
    (d.log e).IsConsistent :=
  { h with
    discarded := fun fragments binds hmem => by
      rcases List.mem_cons.1 hmem with heq | hmem
      · exact he fragments binds heq.symm
      · exact h.discarded fragments binds hmem }

theorem inside (h : d.IsConsistent) : d.inside.IsConsistent where
  placeholders := rfl
  live hne := absurd rfl hne
  nodup := List.nodup_nil
  absent hnot := by cases hnot
  merged := Fragment.isMerged_nil
  discarded := h.discarded

/-- The events of a block are those of the draft around it, and more. -/
theorem takeEvents (h : d.IsConsistent) (hinner : inner.IsConsistent) :
    IsConsistent { d with events := inner.events } :=
  { h with discarded := hinner.discarded }

/-- A block that is discarded holds no value. -/
theorem binds_of_not_live (h : d.IsConsistent) (hlive : ¬ d.live = true) : d.binds = [] := by
  by_contra hne
  exact hlive (h.live hne)

/-- What is written in a block becomes part of the draft around it. -/
theorem absorb (h : d.IsConsistent) (hinner : inner.IsConsistent) : IsConsistent { d with
    fragments := inner.fragments.foldr Fragment.push d.fragments
    binds := inner.binds ++ d.binds
    live := true } where
  placeholders := by
    rw [Fragment.count_foldr_push, hinner.placeholders, h.placeholders, List.length_append]
  live _ := rfl
  nodup := h.nodup
  absent := h.absent
  merged := h.merged.foldr_push inner.fragments
  discarded := h.discarded

end Draft.IsConsistent

/-! ## Sheets -/

/-- The parts of a sheet agree: those of its draft do, and all its switches are on. -/
structure Sheet.IsConsistent (x : Sheet) : Prop where
  draft : x.draft.IsConsistent
  switched : x.switches ≠ []
  on : ∀ switch ∈ x.switches, switch = true

namespace Sheet.IsConsistent

variable {x inner : Sheet}

theorem blank (recorded : Bool) : (Sheet.blank recorded).IsConsistent where
  draft := .blank recorded
  switched := List.cons_ne_nil _ _
  on := List.forall_mem_singleton.2 rfl

theorem isOn (h : x.IsConsistent) : x.isOn = true := by
  obtain ⟨switch, hswitch⟩ := Option.isSome_iff_exists.1 (List.isSome_head?.2 h.switched)
  rw [Sheet.isOn, hswitch]
  exact h.on switch (List.mem_of_mem_head? hswitch)

/-- A change that the parts of the draft survive. -/
theorem change (h : x.IsConsistent) {f : Draft → Draft} (hf : (f x.draft).IsConsistent) :
    (x.change f).IsConsistent :=
  { h with draft := hf }

theorem markLive (h : x.IsConsistent) : (x.change .markLive).IsConsistent :=
  h.change h.draft.markLive

theorem record (h : x.IsConsistent) (branch : NodeId) (state : BranchState) :
    (x.change (·.record branch state)).IsConsistent :=
  { h with draft := h.draft.record branch state }

theorem log (h : x.IsConsistent) {e : Event}
    (he : ∀ fragments binds, e = .discardedBlock fragments binds → binds = 0) :
    (x.change (·.log e)).IsConsistent :=
  { h with draft := h.draft.log he }

theorem write (h : x.IsConsistent) (content : String) : (x.write content).IsConsistent := by
  rw [Sheet.write_of_on h.isOn]
  exact h.change (h.draft.write content)

theorem bind (h : x.IsConsistent) (hlive : x.draft.live = true) (name : String) (v : Value) :
    (x.bind name v).IsConsistent := by
  rw [Sheet.bind_of_on h.isOn]
  exact h.change (h.draft.bind hlive name v)

/-- A branch is open only under switches that are on. -/
theorem enter (h : x.IsConsistent) : (x.enter true).IsConsistent where
  draft := h.draft
  switched := List.cons_ne_nil _ _
  on := List.forall_mem_cons.2 ⟨Sheet.isOn_enter h.isOn, h.on⟩

/-- The switch of the sheet itself is not taken away. -/
theorem leave (h : x.IsConsistent) : x.leave.IsConsistent := by
  unfold Sheet.leave
  split
  · next hlength =>
    refine ⟨h.draft, fun hnil => ?_, fun switch hmem => h.on switch (List.mem_of_mem_tail hmem)⟩
    have hzero : x.switches.tail.length = 0 := List.length_eq_zero_iff.2 hnil
    rw [List.length_tail] at hzero
    omega
  · exact h

theorem inside (h : x.IsConsistent) : x.inside.IsConsistent where
  draft := h.draft.inside
  switched := List.cons_ne_nil _ _
  on := List.forall_mem_singleton.2 h.isOn

theorem around (h : x.IsConsistent) : x.around.IsConsistent := h.change (h.draft.withCoverage none)

theorem abandon (h : x.IsConsistent) (hinner : inner.IsConsistent) :
    (x.abandon inner).IsConsistent :=
  h.change (h.draft.takeEvents hinner.draft)

theorem resume (h : x.IsConsistent) (hinner : inner.IsConsistent) :
    (x.resume inner).IsConsistent :=
  (h.abandon hinner).change ((h.abandon hinner).draft.withCoverage _)

theorem absorb (h : x.IsConsistent) (hinner : inner.IsConsistent) :
    (x.absorb inner).IsConsistent := by
  have hon : (x.change .markLive).isOn = true := h.isOn
  rw [Sheet.absorb, Sheet.foldr_takeOver hon]
  exact ⟨h.draft.absorb hinner.draft, h.switched, h.on⟩

end Sheet.IsConsistent

/-! ## Courses -/

namespace Course

/-- All that the course passes has the property. -/
structure Keeps (c : Course) (P : Sheet → Prop) : Prop where
  passed : ∀ x ∈ c.passed, P x
  last : P c.last

namespace Keeps

variable {P : Sheet → Prop} {c : Course} {x inner : Sheet}

theorem step (h : P x) : (Course.step x).Keeps P := ⟨List.forall_mem_singleton.2 h, h⟩

theorem failed (h : P x) (e : Error) : (Course.failed x e).Keeps P :=
  ⟨List.forall_mem_singleton.2 h, h⟩

theorem via {next : Sheet → Course} (hx : P x) (h : (next x).Keeps P) :
    (Course.via x next).Keeps P :=
  ⟨List.forall_mem_cons.2 ⟨hx, h.passed⟩, h.last⟩

theorem andThen {next : Sheet → Course} (h : c.Keeps P) (hnext : ∀ x, P x → (next x).Keeps P) :
    (c.andThen next).Keeps P := by
  unfold Course.andThen
  split
  · have hn := hnext c.last h.last
    exact ⟨List.forall_mem_append.2 ⟨h.passed, hn.passed⟩, hn.last⟩
  · exact h

/-! ### Variables -/

/-- What keeps a value that is used on a sheet that is live keeps the variable. -/
theorem withVariable (l : Lookup) (name : String) {use : Value → Sheet → Course}
    (hx : x.IsConsistent)
    (huse : ∀ v y, y.IsConsistent → y.draft.live = true → (use v y).Keeps Sheet.IsConsistent) :
    (x.withVariable l name use).Keeps Sheet.IsConsistent := by
  unfold Sheet.withVariable
  split
  · exact failed hx _
  · next v _ =>
    exact via hx.markLive (huse v _ hx.markLive rfl)
  · split
    · next hoptional => exact step (hx.change (hx.draft.noteAbsent hoptional name))
    · exact failed hx _

theorem bindItems (mappers : List Mapper) (name : String) (items : List Value) {x : Sheet}
    (hx : x.IsConsistent) (hlive : x.draft.live = true) :
    (Sheet.bindItems mappers name items x).Keeps Sheet.IsConsistent := by
  induction items generalizing x with
  | nil => exact step hx
  | cons v rest ih =>
    have hbind := hx.bind hlive name (Mapper.bindAll mappers v)
    cases rest with
    | nil => exact step hbind
    | cons w rest =>
      refine via hbind (via (hbind.write ", ") (ih (hbind.write ", ") ?_))
      rw [Sheet.write_of_on hbind.isOn, Sheet.bind_of_on hx.isOn]
      exact hlive

theorem bindMapped (mappers : List Mapper) (name : String) (v : Value) (hx : x.IsConsistent)
    (hlive : x.draft.live = true) :
    (Sheet.bindMapped mappers name v x).Keeps Sheet.IsConsistent := by
  cases v with
  | list items =>
    cases items with
    | nil => exact step (hx.write "NULL")
    | cons v rest => exact bindItems mappers name (v :: rest) hx hlive
  | _ => exact step (hx.bind hlive name _)

theorem bindVariable (mappers : List Mapper) (name : String) (paren : Bool) (v : Value)
    (hx : x.IsConsistent) (hlive : x.draft.live = true) :
    (Sheet.bindVariable mappers name paren v x).Keeps Sheet.IsConsistent := by
  cases paren with
  | false => exact bindMapped mappers name _ hx hlive
  | true =>
    have hopen := hx.write "("
    have hopenLive : (x.write "(").draft.live = true := by
      rw [Sheet.write_of_on hx.isOn]
      exact hlive
    have hclose (y : Sheet) (hy : y.IsConsistent) :
        (Course.step (y.write ")")).Keeps Sheet.IsConsistent := step (hy.write ")")
    exact andThen (via hopen (bindMapped mappers name _ hopen hopenLive)) hclose

/-! ### Branches and blocks -/

theorem decideOn (s : Surroundings) (condition : String) {next : Bool → Sheet → Course}
    (hx : x.IsConsistent)
    (hnext : ∀ b y, y.IsConsistent → (next b y).Keeps Sheet.IsConsistent) :
    (s.decideOn condition x next).Keeps Sheet.IsConsistent := by
  unfold Surroundings.decideOn
  split
  · exact failed hx _
  · next b _ =>
    refine hnext b _ ?_
    split
    · exact hx.log fun _ _ heq => by cases heq
    · exact hx
  · exact failed hx _

theorem leave (h : c.Keeps Sheet.IsConsistent) : c.leave.Keeps Sheet.IsConsistent where
  passed := List.forall_mem_append.2 ⟨h.passed, List.forall_mem_singleton.2 h.last.leave⟩
  last := h.last.leave

theorem within {body : Sheet → Course} (branch : NodeId) (outcome : Outcome)
    (hx : x.IsConsistent)
    (hbody : ∀ y, y.IsConsistent → (body y).Keeps Sheet.IsConsistent) :
    (x.within branch outcome body).Keeps Sheet.IsConsistent := by
  have hresolved (fragments binds : Nat)
      (heq : Event.resolvedChain outcome = .discardedBlock fragments binds) : binds = 0 := by
    cases heq
  have hlog := (hx.record branch .passed).log hresolved
  have henter := hlog.markLive.enter
  exact via hlog (via hlog.markLive (leave (via henter (hbody _ henter))))

/-- A block that is discarded reports that it holds no value, and it holds none. -/
theorem settle (hx : x.IsConsistent) (hinner : inner.IsConsistent) :
    (x.settle inner).Keeps Sheet.IsConsistent := by
  have hresume := hx.resume hinner
  unfold Sheet.settle
  dsimp only
  split
  · split
    · exact failed hresume _
    · exact step (hresume.absorb hinner)
  · next hlive =>
    refine step (hresume.log fun fragments binds heq => ?_)
    rw [hinner.draft.binds_of_not_live hlive] at heq
    exact (Event.discardedBlock.inj heq).2.symm

theorem endBlock (hx : x.IsConsistent) (hc : c.Keeps Sheet.IsConsistent) :
    (x.endBlock c).Keeps Sheet.IsConsistent := by
  unfold Sheet.endBlock
  split
  · exact settle hx hc.last
  · exact failed (hx.abandon hc.last) _

theorem block {body : Sheet → Course} (hx : x.IsConsistent)
    (hbody : ∀ y, y.IsConsistent → (body y).Keeps Sheet.IsConsistent) :
    (x.block body).Keeps Sheet.IsConsistent := by
  have hinner := via hx.inside (hbody _ hx.inside)
  have hend := endBlock hx.around hinner
  have hpassed := List.forall_mem_append.2 ⟨hinner.passed, hend.passed⟩
  exact ⟨List.forall_mem_cons.2 ⟨hx.around, hpassed⟩, hend.last⟩

theorem whenOn {course : Sheet → Course} (hx : x.IsConsistent)
    (h : (course x).Keeps Sheet.IsConsistent) : (x.whenOn course).Keeps Sheet.IsConsistent := by
  rwa [Sheet.whenOn_of_on hx.isOn]

end Keeps

end Course

/-! ## Trees -/

mutual

/-- Rendering a node passes consistent sheets only. -/
theorem Node.renderOn_keeps (s : Surroundings) :
    ∀ (node : Node) (start : NodeId) (x : Sheet), x.IsConsistent →
      (node.renderOn s start x).Keeps Sheet.IsConsistent
  | .text content, start, x, hx => by
    simp only [Node.renderOn]
    exact .whenOn hx (.step (hx.write content))
  | .bind name paren, start, x, hx => by
    simp only [Node.renderOn]
    refine .whenOn hx (.withVariable s.lookup name hx fun v y hy hlive => ?_)
    exact .bindVariable s.mappers name paren v hy hlive
  | .embedded name quoted, start, x, hx => by
    simp only [Node.renderOn]
    refine .whenOn hx (.withVariable s.lookup name hx fun v y hy _ => ?_)
    exact .step (hy.write _)
  | .chain condition _ body rest, start, x, hx => by
    simp only [Node.renderOn]
    refine .whenOn hx (.decideOn s condition hx fun holds y hy => ?_)
    cases holds with
    | true => exact .within _ .first hy (Node.renderAllOn_keeps s body start)
    | false =>
      have hrecord := hy.record (start + Node.countAll body) .failed
      exact .via hrecord (Chain.renderOn_keeps s rest _ _ _ hrecord)
  | .block body, start, x, hx => by
    simp only [Node.renderOn]
    exact .whenOn hx (.block hx (Node.renderAllOn_keeps s body start))

theorem Chain.renderOn_keeps (s : Surroundings) :
    ∀ (chain : Chain) (start : NodeId) (number : Nat) (x : Sheet), x.IsConsistent →
      (chain.renderOn s start number x).Keeps Sheet.IsConsistent
  | .done, start, number, x, hx => by
    simp only [Chain.renderOn]
    exact .step (hx.log fun _ _ heq => by cases heq)
  | .elseIf condition _ body rest, start, number, x, hx => by
    simp only [Chain.renderOn]
    refine .decideOn s condition hx fun holds y hy => ?_
    cases holds with
    | true => exact .within _ (.elseIf number) hy (Node.renderAllOn_keeps s body start)
    | false =>
      have hrecord := hy.record (start + Node.countAll body) .failed
      exact .via hrecord (Chain.renderOn_keeps s rest _ _ _ hrecord)
  | .otherwise _ body, start, number, x, hx => by
    simp only [Chain.renderOn]
    exact .within _ .otherwise hx (Node.renderAllOn_keeps s body start)

theorem Node.renderAllOn_keeps (s : Surroundings) :
    ∀ (nodes : List Node) (start : NodeId) (x : Sheet), x.IsConsistent →
      (Node.renderAllOn s start nodes x).Keeps Sheet.IsConsistent
  | [], start, x, hx => by
    simp only [Node.renderAllOn]
    exact .step hx
  | node :: rest, start, x, hx => by
    simp only [Node.renderAllOn]
    refine (Node.renderOn_keeps s node start x hx).andThen fun y hy => ?_
    exact Node.renderAllOn_keeps s rest _ y hy

end

/-! ## Runs -/

namespace Renderer

/-- A run of a template renders its tree on a sheet, and every sheet on its way is consistent, that
of the statement as well as those of optional blocks, and up to an error as well. No node changes
the switches of a sheet for good. -/
theorem sheets_consistent (r : Renderer) (recorded : Bool) (t : Template) (l : Lookup) :
    r.run recorded t l = (r.course recorded t.tree l).run r.settings (t.name.getD "") ∧
    (∀ x ∈ (r.course recorded t.tree l).passed, x.IsConsistent) ∧
    (r.course recorded t.tree l).last.IsConsistent ∧
    (∀ (s : Surroundings) (node : Node) (start : NodeId) (x : Sheet),
      (node.renderOn s start x).last.switches = x.switches) ∧
    ∀ (s : Surroundings) (nodes : List Node) (start : NodeId) (x : Sheet),
      (Node.renderAllOn s start nodes x).last.switches = x.switches := by
  have hblank := Sheet.IsConsistent.blank recorded
  have hkeeps : (r.course recorded t.tree l).Keeps Sheet.IsConsistent :=
    .via hblank (Node.renderAllOn_keeps _ t.tree.nodes 0 _ hblank)
  refine ⟨r.runTree_eq recorded _ t.tree l, hkeeps.passed, hkeeps.last, ?_, ?_⟩
  · exact Node.switches_renderOn
  · exact Node.switches_renderAllOn

/-- A condition that is no boolean, behind a block in a branch in a block. -/
def brokenInBlock : Template where
  name := none
  source := "/*BEGIN*/a IN /*ids*/(1) AND :gone/*IF f*//*BEGIN*/ OR :y/*END*//*END*/" ++
    "/*IF n*/!/*END*//*END*/"
  tree := ⟨[.block [.text "a IN ", .bind "ids" true, .text " AND ", .bind "gone" false,
    .chain "f" ⟨34, 1, 35⟩ [.block [.text " OR ", .bind "y" false]] .done,
    .chain "n" ⟨71, 1, 72⟩ [.text "!"] .done]]⟩
  ofSource_source := by with_unfolding_all rfl

def brokenInBlockParameters : Parameters :=
  .ofList [("f", .bool true), ("ids", .list [.int 1, .null]), ("n", .int 7), ("y", .null)]

/-- On the way to the error the sheet of the outer block holds three values, one of them taken over
from the inner block, and a name that is absent. -/
theorem sheets_consistent_brokenInBlock :
    (stock.run true brokenInBlock brokenInBlockParameters.lookup).result =
      .error (.evaluationType "n" "integer") ∧
    ∃ x ∈ (stock.course true brokenInBlock.tree brokenInBlockParameters.lookup).passed,
      x.draft.fragments.length = 6 ∧
      x.draft.binds = [⟨"y", .null⟩, ⟨"ids", .null⟩, ⟨"ids", .int 1⟩] ∧
      x.draft.absent = ["gone"] ∧ x.switches = [true, true] ∧ x.IsConsistent := by
  obtain ⟨hrun, hpassed, -⟩ :=
    sheets_consistent stock true brokenInBlock brokenInBlockParameters.lookup
  have hlength :
      21 < (stock.course true brokenInBlock.tree brokenInBlockParameters.lookup).passed.length := by
    decide
  have hmem := List.getElem_mem hlength
  refine ⟨?_, _, hmem, ?_, ?_, ?_, ?_, hpassed _ hmem⟩
  · rw [hrun]
    rfl
  · rfl
  · rfl
  · rfl
  · rfl

end Renderer

end TwoWaySql
