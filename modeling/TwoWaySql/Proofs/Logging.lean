import Mathlib.Algebra.Ring.Nat
import Mathlib.Data.List.Pairwise
import TwoWaySql.Proofs.Collecting

/-!
# The events of a run agree with its result

A run leaves two records behind: its events, one after the other, and its coverage, a table of the
branches. This file shows that they are records of the same thing. It

1. says what a chain records when it comes to an outcome (`ChainBodies.outcomeStates`), and what is
   known of the chain afterwards (`ChainBodies.CameTo`);
2. shows that what is not live binds nothing (`Node.bindsLive`);
3. says when events tell of recorded states (`Tells`), with one lemma for each way in which rows of
   events are put together, and follows the events of a tree with it (`Node.render_logs`);
4. reads the numbers of entries off the outcomes (`Tells.countP_passed`, `Tells.countP_failed`), and
   finds the chains that the events tell of to be those that were reached (`Tells.perm_reached`);
5. concludes that the log agrees with the result (`Renderer.log_agrees`).
-/

namespace TwoWaySql

/-! ## Outcomes of chains -/

/-- The outcome that an event tells of. -/
def Event.outcome? : Event → Option Outcome
  | .resolvedChain outcome => some outcome
  | _ => none

namespace ChainBodies

/-- How many conditions of a chain do not hold where it comes to an outcome. -/
def failures (c : ChainBodies) : Outcome → Nat
  | .first => 0
  | .elseIf number => number
  | .otherwise => c.conditional.length
  | .nothing => c.conditional.length

/-- The body that is entered where a chain comes to an outcome. -/
def entered (c : ChainBodies) : Outcome → Option NodeId
  | .first => c.conditional[0]?
  | .elseIf number => c.conditional[number]?
  | .otherwise => c.last
  | .nothing => none

/-- Whether a chain has the branches for an outcome. -/
def Offers (c : ChainBodies) : Outcome → Prop
  | .first => 0 < c.conditional.length
  | .elseIf number => 0 < number ∧ number < c.conditional.length
  | .otherwise => c.last.isSome
  | .nothing => c.last = none

/-- What a chain records where it comes to an outcome, in order. -/
def outcomeStates (c : ChainBodies) (outcome : Outcome) : List (NodeId × BranchState) :=
  (c.conditional.take (c.failures outcome)).map (·, .failed) ++
    (c.entered outcome).toList.map (·, .passed)

/-- A chain has come to an outcome: the conditions in front of the branch for it have failed, and
that branch was entered. -/
def CameTo (c : ChainBodies) (state? : NodeId → Option BranchState) (outcome : Outcome) : Prop :=
  c.Offers outcome ∧
    (∀ id ∈ c.conditional.take (c.failures outcome), state? id = some .failed) ∧
    ∀ id ∈ c.entered outcome, state? id = some .passed

/-- Whether a chain was reached: all bodies around it were entered. -/
def reached (c : ChainBodies) (coverage : Coverage) : Bool := c.around.all coverage.passed

variable {c : ChainBodies} {outcome : Outcome}

theorem Offers.failures_le (h : c.Offers outcome) : c.failures outcome ≤ c.conditional.length := by
  cases outcome with
  | first => exact Nat.zero_le _
  | elseIf number => exact Nat.le_of_lt h.2
  | otherwise => exact Nat.le_refl _
  | nothing => exact Nat.le_refl _

theorem Offers.length_entered (h : c.Offers outcome) :
    (c.entered outcome).toList.length = if outcome = .nothing then 0 else 1 := by
  cases outcome with
  | first => simp [entered, List.getElem?_eq_getElem h]
  | elseIf number => simp [entered, List.getElem?_eq_getElem h.2]
  | otherwise =>
    obtain ⟨id, hid⟩ := Option.isSome_iff_exists.1 h
    simp [entered, hid]
  | nothing => rfl

theorem Offers.countP_passed (h : c.Offers outcome) :
    (c.outcomeStates outcome).countP (·.2 == .passed) = if outcome = .nothing then 0 else 1 := by
  rw [← h.length_entered, outcomeStates, List.countP_append, List.countP_map, List.countP_map,
    List.countP_eq_zero.2, List.countP_eq_length.2, Nat.zero_add] <;> intro id _ <;> simp

theorem Offers.countP_failed (h : c.Offers outcome) :
    (c.outcomeStates outcome).countP (·.2 == .failed) = c.failures outcome := by
  have htake : (c.conditional.take (c.failures outcome)).length = c.failures outcome := by
    rw [List.length_take, Nat.min_eq_left h.failures_le]
  rw [← htake, outcomeStates, List.countP_append, List.countP_map, List.countP_map,
    List.countP_eq_length.2, List.countP_eq_zero.2, Nat.add_zero] <;> intro id _ <;> simp

/-- A chain records states of its own branches only. -/
theorem mem_all_of_outcomeStates {e : NodeId × BranchState} (h : e ∈ c.outcomeStates outcome) :
    e.1 ∈ c.all := by
  rcases List.mem_append.1 h with h | h
  · obtain ⟨id, hid, rfl⟩ := List.mem_map.1 h
    exact List.mem_append_left _ (List.mem_of_mem_take hid)
  · obtain ⟨id, hid, rfl⟩ := List.mem_map.1 h
    have hid : c.entered outcome = some id := Option.mem_toList.1 hid
    cases outcome with
    | first => exact List.mem_append_left _ (List.mem_of_getElem? hid)
    | elseIf number => exact List.mem_append_left _ (List.mem_of_getElem? hid)
    | otherwise => exact List.mem_append_right _ (Option.mem_toList.2 hid)
    | nothing => cases hid

/-- The first branch is looked at whatever the outcome is. -/
theorem Offers.head_mem (h : c.Offers outcome) {id : NodeId} {more : List NodeId}
    (hc : c.conditional = id :: more) : id ∈ (c.outcomeStates outcome).map Prod.fst := by
  have hfailed {number : Nat} (hn : 0 < number) : id ∈ c.conditional.take number := by
    rw [hc]
    obtain ⟨k, rfl⟩ := Nat.exists_eq_succ_of_ne_zero (Nat.pos_iff_ne_zero.1 hn)
    exact List.mem_cons_self
  have hlength : 0 < c.conditional.length := by simp [hc]
  rw [outcomeStates, List.map_append, List.map_map, List.map_map, List.mem_append]
  cases outcome with
  | first => exact .inr (by simp [entered, hc])
  | elseIf number => exact .inl (List.mem_map.2 ⟨id, hfailed h.1, rfl⟩)
  | otherwise => exact .inl (List.mem_map.2 ⟨id, hfailed hlength, rfl⟩)
  | nothing => exact .inl (List.mem_map.2 ⟨id, hfailed hlength, rfl⟩)

end ChainBodies

mutual

/-- Every chain begins with a branch that has a condition. -/
theorem Node.conditional_chains {around : List NodeId} {start : NodeId} {c : ChainBodies} :
    ∀ node : Node, c ∈ node.chains around start → c.conditional ≠ []
  | .text _, h | .bind _ _, h | .embedded _ _, h => nomatch h
  | .chain condition position body rest, h => by
    rw [Node.chains, List.mem_append, List.mem_append, List.mem_singleton] at h
    rcases h with (h | h) | rfl
    · exact Node.conditional_chainsAll body h
    · exact Chain.conditional_chains rest h
    · exact List.cons_ne_nil _ _
  | .block body, h => Node.conditional_chainsAll body h

theorem Chain.conditional_chains {around : List NodeId} {start : NodeId} {c : ChainBodies} :
    ∀ chain : Chain, c ∈ chain.chains around start → c.conditional ≠ []
  | .done, h => nomatch h
  | .elseIf condition position body rest, h => by
    rw [Chain.chains, List.mem_append] at h
    rcases h with h | h
    · exact Node.conditional_chainsAll body h
    · exact Chain.conditional_chains rest h
  | .otherwise position body, h => Node.conditional_chainsAll body h

theorem Node.conditional_chainsAll {around : List NodeId} {start : NodeId} {c : ChainBodies} :
    ∀ nodes : List Node, c ∈ Node.chainsAll around start nodes → c.conditional ≠ []
  | [], h => nomatch h
  | node :: rest, h => by
    rw [Node.chainsAll, List.mem_append] at h
    rcases h with h | h
    · exact Node.conditional_chains node h
    · exact Node.conditional_chainsAll rest h

end

/-! ## What is not live binds nothing -/

/-- A meaning binds values only where it is live. -/
def Meaning.BindsLive (m : Meaning) : Prop := m.live = false → Piece.slots m.pieces = []

theorem Meaning.BindsLive.of_live {m : Meaning} (h : m.live = true) : m.BindsLive := by
  intro hlive
  rw [h] at hlive
  cases hlive

theorem Meaning.BindsLive.append {m n : Meaning} (hm : m.BindsLive) (hn : n.BindsLive) :
    (m.append n).BindsLive := by
  intro hlive
  obtain ⟨hl, hr⟩ := Bool.or_eq_false_iff.1 hlive
  show Piece.slots (m.pieces ++ n.pieces) = []
  rw [Piece.slots_append, hm hl, hn hr]
  rfl

theorem Meaning.BindsLive.branch {s : Surroundings} {condition : String} {id : NodeId}
    {inner behind : Except Error Meaning} {m : Meaning}
    (h : s.choose condition (inner.map (.taken id)) (behind.map (.passedOver id)) = .ok m)
    (hbehind : ∀ x, behind = .ok x → x.BindsLive) : m.BindsLive := by
  rcases Surroundings.choose_ok h with h | h
  · obtain ⟨x, -, rfl⟩ := Meaning.map_ok h
    exact .of_live rfl
  · obtain ⟨x, hx, rfl⟩ := Meaning.map_ok h
    exact hbehind x hx

theorem Surroundings.bindsLive_resolved {s : Surroundings} {optional : Bool} {name : String}
    {pieces : Value → List Piece} {m : Meaning} (h : s.resolved optional name pieces = .ok m) :
    m.BindsLive := by
  rcases resolved_ok h with ⟨v, -, rfl⟩ | ⟨-, -, rfl⟩
  · exact .of_live rfl
  · exact fun _ => rfl

mutual

theorem Node.bindsLive {s : Surroundings} {optional : Bool} {start : NodeId} {m : Meaning} :
    ∀ node : Node, node.meaning s optional start = .ok m → m.BindsLive
  | .text content, h => by
    rw [← Except.ok.inj h]
    exact fun _ => rfl
  | .bind name paren, h => Surroundings.bindsLive_resolved h
  | .embedded name quoted, h => Surroundings.bindsLive_resolved h
  | .chain condition position body rest, h => by
    rw [Node.meaning] at h
    exact .branch h fun x hx => Chain.bindsLive rest hx
  | .block body, h => by
    rw [Node.meaning] at h
    obtain ⟨inner, hinner, rfl | rfl⟩ := Meaning.block_ok h
    · exact Node.bindsLiveAll body hinner
    · exact fun _ => rfl

theorem Chain.bindsLive {s : Surroundings} {optional : Bool} {start : NodeId} {m : Meaning} :
    ∀ chain : Chain, chain.meaning s optional start = .ok m → m.BindsLive
  | .done, h => by
    rw [← Except.ok.inj h]
    exact fun _ => rfl
  | .elseIf condition position body rest, h => by
    rw [Chain.meaning] at h
    exact .branch h fun x hx => Chain.bindsLive rest hx
  | .otherwise position body, h => by
    rw [Chain.meaning] at h
    obtain ⟨x, -, rfl⟩ := Meaning.map_ok h
    exact .of_live rfl

theorem Node.bindsLiveAll {s : Surroundings} {optional : Bool} {start : NodeId} {m : Meaning} :
    ∀ nodes : List Node, Node.meaningAll s optional start nodes = .ok m → m.BindsLive
  | [], h => by
    rw [← Except.ok.inj h]
    exact fun _ => rfl
  | node :: rest, h => by
    rw [Node.meaningAll] at h
    obtain ⟨x, y, hx, hy, rfl⟩ := Meaning.inRow_ok h
    exact (Node.bindsLive node hx).append (Node.bindsLiveAll rest hy)

end

/-! ## Events that tell of states -/

/-- Events tell of what the branches of chains have recorded: chain by chain, the outcomes are those
in `resolved`, and what these chains record where they come to these outcomes is what was recorded.
No block is discarded with values in it. -/
structure Tells (events : List Event) (resolved : List (ChainBodies × Outcome))
    (states : List (NodeId × BranchState)) (chains : List ChainBodies) : Prop where
  outcomes : events.filterMap Event.outcome? = resolved.map Prod.snd
  states_eq : states = resolved.flatMap fun e => e.1.outcomeStates e.2
  offered : ∀ e ∈ resolved, e.1 ∈ chains ∧ e.1.Offers e.2
  discarded : ∀ fragments binds, .discardedBlock fragments binds ∈ events → binds = 0

namespace Tells

variable {events more : List Event} {resolved others : List (ChainBodies × Outcome)}
  {states later : List (NodeId × BranchState)} {chains : List ChainBodies}

theorem nil (chains : List ChainBodies) : Tells [] [] [] chains where
  outcomes := rfl
  states_eq := rfl
  offered := List.forall_mem_nil _
  discarded _ _ h := absurd h List.not_mem_nil

/-- An event that is not about a chain. -/
theorem silent {e : Event} (hnone : e.outcome? = none)
    (hdiscarded : ∀ fragments binds, e = .discardedBlock fragments binds → binds = 0)
    (chains : List ChainBodies) : Tells [e] [] [] chains where
  outcomes := by rw [List.filterMap_cons_none hnone]; rfl
  states_eq := rfl
  offered := List.forall_mem_nil _
  discarded fragments binds h := hdiscarded fragments binds (List.mem_singleton.1 h).symm

/-- The event of a chain that comes to an outcome. -/
theorem resolvedChain {c : ChainBodies} {outcome : Outcome} (hc : c ∈ chains)
    (hoffers : c.Offers outcome) :
    Tells [.resolvedChain outcome] [(c, outcome)] (c.outcomeStates outcome) chains where
  outcomes := rfl
  states_eq := by rw [List.flatMap_singleton]
  offered := List.forall_mem_singleton.2 ⟨hc, hoffers⟩
  discarded _ _ h := by cases List.mem_singleton.1 h

theorem append (h : Tells events resolved states chains) (hmore : Tells more others later chains) :
    Tells (events ++ more) (resolved ++ others) (states ++ later) chains where
  outcomes := by rw [List.filterMap_append, h.outcomes, hmore.outcomes, List.map_append]
  states_eq := by rw [h.states_eq, hmore.states_eq, List.flatMap_append]
  offered := List.forall_mem_append.2 ⟨h.offered, hmore.offered⟩
  discarded fragments binds hmem := by
    rcases List.mem_append.1 hmem with hmem | hmem
    · exact h.discarded fragments binds hmem
    · exact hmore.discarded fragments binds hmem

theorem mono {chains' : List ChainBodies} (h : Tells events resolved states chains)
    (hsub : chains ⊆ chains') : Tells events resolved states chains' :=
  { h with offered := fun e he => ⟨hsub (h.offered e he).1, (h.offered e he).2⟩ }

end Tells

/-! ## Rendering tells -/

/-- The events that a step adds to those of the draft `d` tell of `states`. -/
def Logs (p : Progress) (d : Draft) (states : List (NodeId × BranchState))
    (chains : List ChainBodies) : Prop :=
  ∃ events resolved, p.draft.events = events.reverse ++ d.events ∧
    Tells events resolved states chains

namespace Logs

variable {p : Progress} {d : Draft} {states later : List (NodeId × BranchState)}
  {chains : List ChainBodies}

theorem nothing (h : p.draft.events = d.events) : Logs p d [] chains :=
  ⟨[], [], h, .nil chains⟩

theorem mono {chains' : List ChainBodies} (h : Logs p d states chains) (hsub : chains ⊆ chains') :
    Logs p d states chains' := by
  obtain ⟨events, resolved, hp, htells⟩ := h
  exact ⟨events, resolved, hp, htells.mono hsub⟩

/-- A step that is taken behind events of which it is known what they tell. -/
theorem behind {d' : Draft} {events : List Event} {resolved : List (ChainBodies × Outcome)}
    (hd : d'.events = events.reverse ++ d.events) (htells : Tells events resolved states chains)
    (h : Logs p d' later chains) : Logs p d (states ++ later) chains := by
  obtain ⟨more, others, hp, hmore⟩ := h
  refine ⟨events ++ more, resolved ++ others, ?_, htells.append hmore⟩
  rw [hp, hd, List.reverse_append, List.append_assoc]

theorem inRow {d' : Draft} {step : Draft → Progress} (h : Logs (.done d') d states chains)
    (hnext : Logs (step d') d' later chains) :
    Logs ((Progress.done d').andThen step) d (states ++ later) chains := by
  obtain ⟨events, resolved, hd, htells⟩ := h
  exact hnext.behind hd htells

/-- The use of a variable tells nothing. -/
theorem withVariable (l : Lookup) (name : String) {use : Value → Draft → Draft}
    (huse : ∀ v d', (use v d').events = d'.events) :
    Logs (d.withVariable l name use) d [] chains := by
  refine nothing ?_
  unfold Draft.withVariable
  split
  · rfl
  · next v _ => exact huse v d.markLive
  · split
    · show (d.noteAbsent name).events = d.events
      rw [Draft.noteAbsent_eq]
      rfl
    · rfl

/-- A condition tells nothing of its own. -/
theorem decide {s : Surroundings} {condition : String} {next : Bool → Draft → Progress}
    {yes no : Except Error Meaning} {m : Meaning} (h : s.choose condition yes no = .ok m)
    (hyes : ∀ d', d'.optional = d.optional → yes = .ok m → Logs (next true d') d' states chains)
    (hno : ∀ d', d'.optional = d.optional → no = .ok m → Logs (next false d') d' states chains) :
    Logs (s.decide condition d next) d states chains := by
  have told {b : Bool} (hb : ∀ d', d'.optional = d.optional → Logs (next b d') d' states chains) :
      Logs (next b (if Surroundings.isTold condition then d.log (s.evaluated condition b) else d))
        d states chains := by
    split
    · have hsilent : Tells [s.evaluated condition b] [] [] chains :=
        .silent rfl (fun _ _ heq => by cases heq) chains
      exact (hb (d.log (s.evaluated condition b)) rfl).behind rfl hsilent
    · exact hb d rfl
  unfold Surroundings.choose Surroundings.holds at h
  unfold Surroundings.decide
  cases hv : s.evaluator.evaluate condition s.lookup with
  | error e =>
    rw [hv] at h
    cases h
  | ok v =>
    rw [hv] at h
    cases v with
    | bool b =>
      cases b with
      | true => exact told fun d' ho => hyes d' ho h
      | false => exact told fun d' ho => hno d' ho h
    | _ => cases h

/-- A chain comes to an outcome with a body, which is rendered after the event. -/
theorem enter {c : ChainBodies} {outcome : Outcome} {before : List NodeId} {id : NodeId}
    {x : Meaning} (hc : c ∈ chains) (hoffers : c.Offers outcome)
    (hbefore : c.conditional.take (c.failures outcome) = before)
    (hentered : c.entered outcome = some id)
    (h : Logs p (d.enter id outcome) x.states chains) :
    Logs p d (before.map (·, .failed) ++ (x.taken id).states) chains := by
  have hstates : before.map (·, .failed) ++ (x.taken id).states =
      c.outcomeStates outcome ++ x.states := by
    rw [ChainBodies.outcomeStates, hbefore, hentered, List.append_assoc]
    rfl
  rw [hstates]
  exact h.behind rfl (.resolvedChain hc hoffers)

/-- A block that is settled without an error: the event of a discarded one reports no value. -/
theorem settle {inner : Meaning} {events : List Event} (h : inner.BindsLive) :
    Logs (d.settle (d.inside.extend inner events)) { d with events } [] chains := by
  unfold Draft.settle
  cases hl : inner.live with
  | true =>
    rw [if_pos (show (d.inside.extend inner events).live = true from hl)]
    refine nothing ?_
    split <;> rfl
  | false =>
    have hlive : ¬ (d.inside.extend inner events).live = true := by
      rw [show (d.inside.extend inner events).live = inner.live from rfl, hl]
      exact Bool.false_ne_true
    have hbinds : (d.inside.extend inner events).binds = [] := by
      show (Piece.slots inner.pieces).reverse ++ [] = []
      rw [h hl]
      rfl
    rw [if_neg hlive]
    refine ⟨[.discardedBlock (d.inside.extend inner events).fragments.length
      (d.inside.extend inner events).binds.length], [], rfl, .silent rfl ?_ chains⟩
    intro fragments binds heq
    rw [hbinds] at heq
    exact (Event.discardedBlock.inj heq).2.symm

end Logs

/-- The body of a block is rendered onto a draft of its own, and the events go on in it. -/
theorem Logs.block {p : Progress} {d : Draft} {chains : List ChainBodies} {inner : Meaning}
    (hlive : inner.BindsLive) (hp : Follows p d.inside (.ok inner))
    (h : Logs p d.inside inner.states chains) :
    Logs (p.andThen d.settle) d inner.states chains := by
  obtain ⟨later, rfl⟩ := hp
  obtain ⟨events, resolved, hd, htells⟩ := h
  rw [← List.append_nil inner.states]
  exact (Logs.settle hlive).behind hd htells

/-- A further branch of a chain. -/
theorem ChainBodies.offers_elseIf {c : ChainBodies} {before more : List NodeId} {id : NodeId}
    (h : c.conditional = before ++ id :: more) (hbefore : before ≠ []) :
    c.Offers (.elseIf before.length) ∧ c.conditional.take before.length = before ∧
      c.entered (.elseIf before.length) = some id := by
  refine ⟨⟨List.length_pos_iff.2 hbefore, ?_⟩, ?_, ?_⟩
  · rw [h, List.length_append, List.length_cons]
    omega
  · rw [h, List.take_left]
  · rw [entered, h, List.getElem?_append_right (Nat.le_refl _), Nat.sub_self]
    rfl

section

variable {s : Surroundings}

mutual

/-- The events of a node tell of what the branches of its chains record. -/
theorem Node.render_logs (around : List NodeId) :
    ∀ (node : Node) (start : NodeId) (d : Draft) (m : Meaning),
      node.meaning s d.optional start = .ok m →
      Logs (node.render s start d) d m.states (node.chains around start)
  | .text content, start, d, m, h => by
    rw [← Except.ok.inj h]
    exact .nothing rfl
  | .bind name paren, start, d, m, h => by
    have hstates : m.states = [] := by
      rcases Surroundings.resolved_ok h with ⟨v, -, rfl⟩ | ⟨-, -, rfl⟩ <;> rfl
    rw [Node.render, hstates]
    refine .withVariable s.lookup name fun v d' => ?_
    rw [Draft.bindVariable_eq]
    rfl
  | .embedded name quoted, start, d, m, h => by
    have hstates : m.states = [] := by
      rcases Surroundings.resolved_ok h with ⟨v, -, rfl⟩ | ⟨-, -, rfl⟩ <;> rfl
    rw [Node.render, hstates]
    exact .withVariable s.lookup name fun v d' => rfl
  | .chain condition position body rest, start, d, m, h => by
    rw [Node.meaning] at h
    rw [Node.render, Node.chains]
    let id : NodeId := start + Node.countAll body
    let whole : ChainBodies := ⟨around, id :: rest.conditional (id + 1), rest.last (id + 1)⟩
    refine .decide h (fun d' ho hyes => ?_) (fun d' ho hno => ?_)
    · obtain ⟨x, hx, rfl⟩ := Meaning.map_ok hyes
      rw [if_pos rfl]
      have hbody := Node.renderAll_logs (id :: around) body start (d'.enter id .first) x (ho ▸ hx)
      have hoffers : whole.Offers .first := Nat.succ_pos _
      have htake : whole.conditional.take (whole.failures .first) = [] := List.take_zero
      refine .enter List.mem_concat_self hoffers htake rfl (hbody.mono ?_)
      exact List.Subset.trans (List.subset_append_left _ _) (List.subset_append_left _ _)
    · obtain ⟨x, hx, rfl⟩ := Meaning.map_ok hno
      rw [if_neg Bool.false_ne_true]
      have hrest := Chain.render_logs around whole rest (id + 1) [id] (d'.record id .failed) x
        (List.cons_ne_nil _ _) rfl rfl (ho ▸ hx)
      refine hrest.mono (List.cons_subset.2 ⟨List.mem_concat_self, ?_⟩)
      exact List.Subset.trans (List.subset_append_right _ _) (List.subset_append_left _ _)
  | .block body, start, d, m, h => by
    rw [Node.meaning] at h
    obtain ⟨inner, hinner, hm⟩ := Meaning.block_ok h
    have hstates : m.states = inner.states := by
      rcases hm with rfl | rfl <;> rfl
    rw [hstates, Node.render, Node.chains]
    have hfollows := Node.renderAll_follows s body start d.inside
    rw [show d.inside.optional = true from rfl, hinner] at hfollows
    exact .block (Node.bindsLiveAll body hinner) hfollows
      (Node.renderAll_logs around body start d.inside inner hinner)

/-- What follows the branches of the chain `whole` of which no condition holds, those in `before`.
The event of `whole` is the next one about a chain. -/
theorem Chain.render_logs (around : List NodeId) (whole : ChainBodies) :
    ∀ (chain : Chain) (start : NodeId) (before : List NodeId) (d : Draft) (m : Meaning),
      before ≠ [] → whole.conditional = before ++ chain.conditional start →
      whole.last = chain.last start → chain.meaning s d.optional start = .ok m →
      Logs (chain.render s start before.length d) d (before.map (·, .failed) ++ m.states)
        (whole :: chain.chains around start)
  | .done, start, before, d, m, _, hconditional, hlast, h => by
    rw [← Except.ok.inj h]
    have hbefore : whole.conditional = before := by
      rw [hconditional]
      exact List.append_nil before
    have hstates : before.map (·, .failed) ++ [] = whole.outcomeStates .nothing := by
      rw [ChainBodies.outcomeStates, ChainBodies.failures, List.take_length, hbefore]
      rfl
    rw [Chain.render, Meaning.ofPieces, hstates]
    exact ⟨[.resolvedChain .nothing], _, rfl, .resolvedChain List.mem_cons_self hlast⟩
  | .elseIf condition position body rest, start, before, d, m, hbefore, hconditional, hlast, h => by
    rw [Chain.meaning] at h
    rw [Chain.render, Chain.chains]
    let id : NodeId := start + Node.countAll body
    have hconditional : whole.conditional = before ++ id :: rest.conditional (id + 1) :=
      hconditional
    refine .decide h (fun d' ho hyes => ?_) (fun d' ho hno => ?_)
    · obtain ⟨x, hx, rfl⟩ := Meaning.map_ok hyes
      rw [if_pos rfl]
      have hbody := Node.renderAll_logs (id :: around) body start
        (d'.enter id (.elseIf before.length)) x (ho ▸ hx)
      obtain ⟨hoffers, htake, hentered⟩ := ChainBodies.offers_elseIf hconditional hbefore
      refine .enter List.mem_cons_self hoffers htake hentered (hbody.mono ?_)
      exact List.Subset.trans (List.subset_append_left _ _) (List.subset_cons_self _ _)
    · obtain ⟨x, hx, rfl⟩ := Meaning.map_ok hno
      rw [if_neg Bool.false_ne_true]
      have hrest := Chain.render_logs around whole rest (id + 1) (before ++ [id])
        (d'.record id .failed) x (List.concat_ne_nil _ _) (by rw [hconditional, List.append_cons])
        hlast (ho ▸ hx)
      rw [List.length_append, List.map_append, List.append_assoc] at hrest
      exact hrest.mono (List.cons_subset_cons _ (List.subset_append_right _ _))
  | .otherwise position body, start, before, d, m, _, hconditional, hlast, h => by
    rw [Chain.meaning] at h
    obtain ⟨x, hx, rfl⟩ := Meaning.map_ok h
    rw [Chain.render, Chain.chains]
    let id : NodeId := start + Node.countAll body
    have hbody := Node.renderAll_logs (id :: around) body start (d.enter id .otherwise) x hx
    have hbefore : whole.conditional = before := by
      rw [hconditional]
      exact List.append_nil before
    have htake : whole.conditional.take (whole.failures .otherwise) = before := by
      rw [ChainBodies.failures, List.take_length, hbefore]
    have hlast : whole.last = some id := hlast
    have hoffers : whole.Offers .otherwise := Option.isSome_of_eq_some hlast
    exact .enter List.mem_cons_self hoffers htake hlast (hbody.mono (List.subset_cons_self _ _))

theorem Node.renderAll_logs (around : List NodeId) :
    ∀ (nodes : List Node) (start : NodeId) (d : Draft) (m : Meaning),
      Node.meaningAll s d.optional start nodes = .ok m →
      Logs (Node.renderAll s start nodes d) d m.states (Node.chainsAll around start nodes)
  | [], start, d, m, h => by
    rw [← Except.ok.inj h]
    exact .nothing rfl
  | node :: rest, start, d, m, h => by
    rw [Node.meaningAll] at h
    obtain ⟨x, y, hx, hy, rfl⟩ := Meaning.inRow_ok h
    have hnode := Node.render_logs around node start d x hx
    have hfollows := Node.render_follows s node start d
    rw [hx] at hfollows
    obtain ⟨events, he⟩ := hfollows
    rw [Node.renderAll, Node.chainsAll]
    rw [he] at hnode ⊢
    have hrest := Node.renderAll_logs around rest (start + node.count)
      (d.extend x events) y hy
    exact (hnode.mono (List.subset_append_left _ _)).inRow
      (hrest.mono (List.subset_append_right _ _))

end

end

/-! ## The numbers of entries -/

namespace Tells

variable {events : List Event} {resolved : List (ChainBodies × Outcome)}
  {states : List (NodeId × BranchState)} {chains : List ChainBodies}

/-- Each chain enters one body, unless nothing of it is entered. -/
theorem countP_passed (h : Tells events resolved states chains) :
    states.countP (·.2 == .passed) =
      (events.filterMap Event.outcome?).countP (· != .nothing) := by
  have hoffers : ∀ e ∈ resolved, e.1.Offers e.2 := fun e he => (h.offered e he).2
  rw [h.states_eq, h.outcomes]
  clear h
  induction resolved with
  | nil => rfl
  | cons e rest ih =>
    obtain ⟨hfirst, hrest⟩ := List.forall_mem_cons.1 hoffers
    rw [List.flatMap_cons, List.countP_append, hfirst.countP_passed, ih hrest, List.map_cons,
      List.countP_cons, Nat.add_comm]
    by_cases hnothing : e.2 = .nothing <;> simp [hnothing]

/-- The failed conditions are those of the chains that the events tell of. -/
theorem countP_failed (h : Tells events resolved states chains) :
    states.countP (·.2 == .failed) = (resolved.map fun e => e.1.failures e.2).sum := by
  rw [h.states_eq, List.countP_flatMap]
  exact congrArg List.sum (List.map_congr_left fun e he => (h.offered e he).2.countP_failed)

end Tells

/-- Where no branch stands twice, looking a branch up finds the state that stands with it. -/
theorem stateIn_eq_some_iff {states : List (NodeId × BranchState)}
    (h : (states.map Prod.fst).Nodup) {id : NodeId} {state : BranchState} :
    stateIn states id = some state ↔ (id, state) ∈ states := by
  refine ⟨mem_of_stateIn, fun hmem => ?_⟩
  cases state with
  | passed => exact if_pos hmem
  | failed =>
    have hpassed : (id, BranchState.passed) ∉ states := by
      intro hp
      have heq := List.inj_on_of_nodup_map h hp hmem rfl
      cases heq
    rw [stateIn, if_neg hpassed, if_pos hmem]

theorem Coverage.nodup_entries (c : Coverage) : c.states.entries.Nodup := by
  refine c.states.ascending.imp fun {e other} hlt heq => ?_
  have hself : compare e.1 e.1 = .eq := Std.ReflCmp.compare_self
  rw [← heq, hself] at hlt
  cases hlt

/-- The entries of coverage are what was recorded, if no branch was recorded twice. -/
theorem Meaning.perm_entries {m : Meaning} (h : (m.states.map Prod.fst).Nodup) :
    m.coverage.states.entries.Perm m.states := by
  refine (List.perm_ext_iff_of_nodup m.coverage.nodup_entries (.of_map _ h)).2 fun e => ?_
  rw [← stateIn_eq_some_iff h, ← m.state?_coverage, Coverage.state?_eq_some_iff]

/-! ## The chains that were reached -/

section

variable {α β : Type} {l : List α} {f : α → List β}

/-- Where rows have nothing twice, an item stands in one of the rows only. -/
theorem eq_of_nodup_flatMap (h : (l.flatMap f).Nodup) {a b : α} (ha : a ∈ l) (hb : b ∈ l) {x : β}
    (hxa : x ∈ f a) (hxb : x ∈ f b) : a = b := by
  by_contra hne
  have hsymm : Std.Symm (Function.onFun List.Disjoint f) := ⟨fun _ _ hd _ hxb hxa => hd hxa hxb⟩
  have hdisjoint := (List.nodup_flatMap.1 h).2.forall ha hb hne
  exact hdisjoint hxa hxb

/-- Rows of one value have an item in common, so where rows have nothing twice, values differ. -/
theorem nodup_map_of_nodup_flatMap {γ : Type} {g : α → γ} (h : (l.flatMap f).Nodup)
    (hitem : ∀ a ∈ l, ∀ b ∈ l, g a = g b → ∃ x, x ∈ f a ∧ x ∈ f b) : (l.map g).Nodup := by
  refine List.pairwise_map.2 ((List.nodup_flatMap.1 h).2.imp_of_mem fun ha hb hdisjoint heq => ?_)
  obtain ⟨x, hxa, hxb⟩ := hitem _ ha _ hb heq
  exact hdisjoint hxa hxb

end

namespace ChainBodies

theorem reached_iff {c : ChainBodies} {coverage : Coverage} :
    c.reached coverage = true ↔ ∀ id ∈ c.around, coverage.state? id = some .passed := by
  simp [reached, Coverage.passed]

/-- The chains that were reached are those that have recorded something of one of their branches. -/
theorem Recorded.reached_iff {c : ChainBodies} {coverage : Coverage}
    (h : c.Recorded coverage.state?) (hconditional : c.conditional ≠ []) :
    c.reached coverage = true ↔ ∃ id ∈ c.all, coverage.state? id ≠ none := by
  rw [ChainBodies.reached_iff]
  rcases h with ⟨⟨id, hid, hpassed⟩, hnone⟩ | ⟨haround, hresolved⟩
  · refine iff_of_false (fun haround => hpassed (haround id hid)) ?_
    rintro ⟨other, hother, hstate⟩
    exact hstate (hnone other hother)
  · refine iff_of_true haround ?_
    rcases hresolved with ⟨before, taken, after, hc, -, htaken, -⟩ | ⟨hfailed, -⟩
    · refine ⟨taken, List.mem_append_left _ ?_, Option.ne_none_iff_exists'.2 ⟨_, htaken⟩⟩
      rw [hc]
      exact List.mem_append_right _ List.mem_cons_self
    · obtain ⟨id, hid⟩ := List.exists_mem_of_ne_nil _ hconditional
      exact ⟨id, List.mem_append_left _ hid, Option.ne_none_iff_exists'.2 ⟨_, hfailed id hid⟩⟩

end ChainBodies

theorem Tree.nodup_chains (t : Tree) : (t.chains.flatMap ChainBodies.all).Nodup :=
  (Node.branches_chainsAll [] 0 t.nodes).nodup_iff.1 t.spread_branches.1

/-- The chains that the events of a tree tell of are those that were reached, each once. -/
theorem Tells.perm_reached {t : Tree} {m : Meaning} {events : List Event}
    {resolved : List (ChainBodies × Outcome)} (h : Tells events resolved m.states t.chains)
    (hnodup : (m.states.map Prod.fst).Nodup)
    (hrecorded : ∀ c ∈ t.chains, c.Recorded m.coverage.state?) :
    (resolved.map Prod.fst).Perm (t.chains.filter (·.reached m.coverage)) := by
  have hconditional : ∀ c ∈ t.chains, c.conditional ≠ [] :=
    fun c hc => Node.conditional_chainsAll t.nodes hc
  have hstate (id : NodeId) : m.coverage.state? id ≠ none ↔ id ∈ m.states.map Prod.fst := by
    rw [Option.ne_none_iff_exists', List.mem_map]
    simp only [m.state?_coverage, stateIn_eq_some_iff hnodup]
    exact ⟨fun ⟨state, hs⟩ => ⟨_, hs, rfl⟩, fun ⟨e, he, hid⟩ => ⟨e.2, hid ▸ he⟩⟩
  -- the first branch of a chain shows that the chain is told of once, and stands once in the tree
  have hresolved : (resolved.map Prod.fst).Nodup := by
    rw [h.states_eq, List.map_flatMap] at hnodup
    refine nodup_map_of_nodup_flatMap hnodup fun a ha b hb heq => ?_
    obtain ⟨id, more, hc⟩ := List.exists_cons_of_ne_nil (hconditional a.1 (h.offered a ha).1)
    exact ⟨id, (h.offered a ha).2.head_mem hc, (h.offered b hb).2.head_mem (heq ▸ hc)⟩
  have hchains : t.chains.Nodup := by
    rw [← List.map_id t.chains]
    refine nodup_map_of_nodup_flatMap t.nodup_chains fun a ha b _ heq => ?_
    have heq : a = b := heq
    obtain ⟨id, hid⟩ := List.exists_mem_of_ne_nil _ (hconditional a ha)
    have hid : id ∈ a.all := List.mem_append_left _ hid
    exact ⟨id, hid, heq ▸ hid⟩
  refine (List.perm_ext_iff_of_nodup hresolved (hchains.filter _)).2 fun c => ?_
  rw [List.mem_filter]
  constructor
  · intro hc
    obtain ⟨e, he, rfl⟩ := List.mem_map.1 hc
    obtain ⟨hmem, hoffers⟩ := h.offered e he
    refine ⟨hmem, ((hrecorded _ hmem).reached_iff (hconditional _ hmem)).2 ?_⟩
    obtain ⟨id, more, hfirst⟩ := List.exists_cons_of_ne_nil (hconditional _ hmem)
    refine ⟨id, List.mem_append_left _ (hfirst ▸ List.mem_cons_self), (hstate id).2 ?_⟩
    rw [h.states_eq, List.map_flatMap]
    exact List.mem_flatMap.2 ⟨e, he, hoffers.head_mem hfirst⟩
  · rintro ⟨hmem, hreached⟩
    obtain ⟨id, hid, hne⟩ := ((hrecorded c hmem).reached_iff (hconditional c hmem)).1 hreached
    obtain ⟨state, hstates, rfl⟩ := List.mem_map.1 ((hstate id).1 hne)
    rw [h.states_eq] at hstates
    obtain ⟨e, he, hin⟩ := List.mem_flatMap.1 hstates
    have hall := ChainBodies.mem_all_of_outcomeStates hin
    have heq := eq_of_nodup_flatMap t.nodup_chains (h.offered e he).1 hmem hall hid
    exact heq ▸ List.mem_map_of_mem he

/-- A chain that the events tell of has come to the outcome that they tell. -/
theorem Tells.cameTo {m : Meaning} {events : List Event} {resolved : List (ChainBodies × Outcome)}
    {chains : List ChainBodies} (h : Tells events resolved m.states chains)
    (hnodup : (m.states.map Prod.fst).Nodup) :
    ∀ e ∈ resolved, e.1.CameTo m.coverage.state? e.2 := by
  intro e he
  have hstate (entry : NodeId × BranchState) (hentry : entry ∈ e.1.outcomeStates e.2) :
      m.coverage.state? entry.1 = some entry.2 := by
    rw [m.state?_coverage, stateIn_eq_some_iff hnodup, h.states_eq]
    exact List.mem_flatMap.2 ⟨e, he, hentry⟩
  refine ⟨(h.offered e he).2, fun id hid => ?_, fun id hid => ?_⟩
  · exact hstate (id, .failed) (List.mem_append_left _ (List.mem_map_of_mem hid))
  · exact hstate (id, .passed)
      (List.mem_append_right _ (List.mem_map_of_mem (Option.mem_toList.2 hid)))

/-! ## Runs -/

namespace Renderer

/-- The log of a run that succeeds: its events tell of what was recorded, and a last one reports the
number of values. -/
theorem run_logs {r : Renderer} {t : Template} {l : Lookup} {st : Statement}
    (h : (r.run true t l).result = .ok st) :
    ∃ (m : Meaning) (events : List Event) (resolved : List (ChainBodies × Outcome)),
      t.tree.meaning ⟨l, r.evaluator, r.mappers⟩ = .ok m ∧
      st = m.statement r.settings true ∧
      (r.run true t l).events =
        events ++ [.transformedTemplate (t.name.getD "") st.binds.length] ∧
      Tells events resolved m.states t.tree.chains := by
  have hresult := h
  rw [run, result_eq] at hresult
  cases hm : t.tree.meaning ⟨l, r.evaluator, r.mappers⟩ with
  | error e =>
    rw [hm] at hresult
    cases hresult
  | ok m =>
    rw [hm] at hresult
    obtain rfl : m.statement r.settings true = st := Except.ok.inj hresult
    obtain ⟨events, resolved, hevents, htells⟩ :=
      Node.renderAll_logs [] t.tree.nodes 0 (.blank true) m hm
    refine ⟨m, events, resolved, rfl, rfl, ?_, htells⟩
    have hfollows := Node.renderAll_follows ⟨l, r.evaluator, r.mappers⟩ t.tree.nodes 0 (.blank true)
    rw [show Node.meaningAll ⟨l, r.evaluator, r.mappers⟩ (Draft.blank true).optional 0
      t.tree.nodes = .ok m from hm] at hfollows
    obtain ⟨later, hp⟩ := hfollows
    rw [hp] at hevents
    have hlater : later = events.reverse ++ [] := hevents
    simp only [run, runTree, Tree.render, hp, Progress.done, Draft.statement_extend]
    show (_ :: later).reverse = _
    rw [hlater, List.append_nil, List.reverse_cons, List.reverse_reverse]

/-- The log of a run that succeeds agrees with its result. Chain by chain, the events about chains
tell of the chains that were reached, each with the outcome that the coverage has recorded for it;
so as many branches were entered as there are outcomes other than `nothing`, and as many conditions
have failed as the outcomes say. A block that is discarded holds no values, and the last event
reports how many values the statement has. -/
theorem log_agrees {r : Renderer} {t : Template} {l : Lookup} {st : Statement}
    (h : (r.run true t l).result = .ok st) :
    ∃ (c : Coverage) (resolved : List (ChainBodies × Outcome)),
      st.coverage = some c ∧
      (r.run true t l).events.filterMap Event.outcome? = resolved.map Prod.snd ∧
      (resolved.map Prod.fst).Perm (t.tree.chains.filter (·.reached c)) ∧
      (∀ e ∈ resolved, e.1.CameTo c.state? e.2) ∧
      c.states.entries.countP (·.2 == .passed) =
        ((r.run true t l).events.filterMap Event.outcome?).countP (· != .nothing) ∧
      c.states.entries.countP (·.2 == .failed) =
        (resolved.map fun e => e.1.failures e.2).sum ∧
      (∀ fragments binds,
        .discardedBlock fragments binds ∈ (r.run true t l).events → binds = 0) ∧
      (r.run true t l).events.getLast? =
        some (.transformedTemplate (t.name.getD "") st.binds.length) := by
  obtain ⟨m, events, resolved, hm, rfl, hevents, htells⟩ := run_logs h
  have hnodup : (m.states.map Prod.fst).Nodup :=
    (Node.states_sublistAll t.tree.nodes hm).nodup t.tree.spread_branches.1
  have hagrees : Agrees m.coverage.state? m.states 0 (0 + Node.countAll t.tree.nodes) :=
    fun id _ _ => m.state?_coverage id
  have hrecorded := Node.recordedAll (List.forall_mem_nil _) t.tree.nodes hm hagrees
  have hperm := Meaning.perm_entries hnodup
  -- the last event is not about a chain and not about a block
  have houtcomes : (r.run true t l).events.filterMap Event.outcome? =
      events.filterMap Event.outcome? := by
    rw [hevents, List.filterMap_append]
    exact List.append_nil _
  refine ⟨m.coverage, resolved, rfl, houtcomes.trans htells.outcomes,
    htells.perm_reached hnodup hrecorded, htells.cameTo hnodup, ?_, ?_, ?_, ?_⟩
  · rw [hperm.countP_eq, htells.countP_passed, houtcomes]
  · rw [hperm.countP_eq, htells.countP_failed]
  · intro fragments binds hmem
    rw [hevents] at hmem
    rcases List.mem_append.1 hmem with hmem | hmem
    · exact htells.discarded fragments binds hmem
    · cases List.mem_singleton.1 hmem
  · rw [hevents, List.getLast?_concat]

theorem log_agrees_nestedChains :
    let run := stock.run true nestedChains nestedParameters.lookup
    run.result = .ok nestedStatement ∧
    run.events.filterMap Event.outcome? = [.first, .nothing, .nothing] ∧
    ∃ (c : Coverage) (resolved : List (ChainBodies × Outcome)),
      nestedStatement.coverage = some c ∧
      run.events.filterMap Event.outcome? = resolved.map Prod.snd ∧
      (resolved.map Prod.fst).Perm (nestedChains.tree.chains.filter (·.reached c)) ∧
      (∀ e ∈ resolved, e.1.CameTo c.state? e.2) ∧
      c.states.entries.countP (·.2 == .passed) =
        (run.events.filterMap Event.outcome?).countP (· != .nothing) ∧
      c.states.entries.countP (·.2 == .failed) =
        (resolved.map fun e => e.1.failures e.2).sum ∧
      (∀ fragments binds, .discardedBlock fragments binds ∈ run.events → binds = 0) ∧
      run.events.getLast? =
        some (.transformedTemplate (nestedChains.name.getD "") nestedStatement.binds.length) := by
  have h : (stock.run true nestedChains nestedParameters.lookup).result = .ok nestedStatement := rfl
  exact ⟨h, rfl, log_agrees h⟩

end Renderer

end TwoWaySql
