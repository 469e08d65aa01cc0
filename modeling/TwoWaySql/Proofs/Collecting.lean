import Mathlib.Data.List.Sort
import TwoWaySql.Coverage.Collector
import TwoWaySql.Proofs.Recording

/-!
# What a collector holds

A collector is told of the coverage of every transformation that succeeds, and it may be cleared at
any time. What it holds after that depends on the transformations since the last clear alone, and it
can be said without any collector: for each key, the branches of the first template under it that
was transformed, each in the strongest state that a transformation under that key has recorded for
it. This file

1. shows that tables with the same values are the same (`Table.eq_of_get?`), and that merging
   coverage keeps the stronger state of every branch (`Coverage.state?_merge`);
2. says what a collector is told (`Collector.Action`), and which successes there are for a key since
   the last clear (`Collector.successes`);
3. shows that a collector holds exactly these successes, whatever it is told (`Collector.holds_act`
   for one step, `Collector.holds_after` for all of them);
4. concludes what it reports, that the order of transformations does not matter where there is one
   template to a key, and that no branch is lost between two clears
   (`Collector.report_after`).
-/

namespace TwoWaySql

/-! ## Tables by their values -/

section

variable {κ α : Type} [Ord κ] [Std.TransOrd κ] [Std.LawfulEqOrd κ]

omit [Std.TransOrd κ] in
/-- In ascending order each key has one entry, so looking a key up finds that entry. -/
theorem Ascending.find?_eq_some_iff {entries : List (κ × α)} (h : Ascending entries) {k : κ}
    {v : α} : Entries.find? k entries = some v ↔ (k, v) ∈ entries := by
  induction entries with
  | nil => simp [Entries.find?]
  | cons e rest ih =>
    obtain ⟨l, w⟩ := e
    obtain ⟨hfirst, hrest⟩ := List.pairwise_cons.1 h
    rw [Entries.find?, List.mem_cons, Prod.mk.injEq]
    by_cases hk : k = l
    · subst hk
      have hself : compare k k = .eq := Std.ReflCmp.compare_self
      rw [if_pos hself, Option.some.injEq]
      refine ⟨fun hv => .inl ⟨rfl, hv.symm⟩, fun hmem => ?_⟩
      rcases hmem with hv | hmem
      · exact hv.2.symm
      · have hlt : compare k k = .lt := hfirst _ hmem
        rw [hself] at hlt
        cases hlt
    · rw [if_neg fun heq => hk (Std.LawfulEqCmp.eq_of_compare heq), ih hrest]
      exact ⟨.inr, fun hmem => hmem.resolve_left fun hv => hk hv.1⟩

/-- Entries in ascending order are determined by what they contain. -/
theorem Ascending.eq_of_mem_iff {entries others : List (κ × α)} (h : Ascending entries)
    (hothers : Ascending others) (hmem : ∀ e, e ∈ entries ↔ e ∈ others) : entries = others := by
  have hirrefl (e : κ × α) : ¬ compare e.1 e.1 = .lt := by
    intro hlt
    have heq : compare e.1 e.1 = .eq := Std.ReflCmp.compare_self
    rw [heq] at hlt
    cases hlt
  have hantisymm : Std.Antisymm fun a b : κ × α => compare a.1 b.1 = .lt :=
    ⟨fun a b hab hba => absurd (Std.TransCmp.lt_trans hab hba) (hirrefl a)⟩
  have hirreflexive : Std.Irrefl fun a b : κ × α => compare a.1 b.1 = .lt := ⟨hirrefl⟩
  exact List.Pairwise.eq_of_mem_iff h hothers hmem

/-- A table is determined by its values. -/
theorem Table.eq_of_get? {t u : Table κ α} (h : ∀ k, t.get? k = u.get? k) : t = u := by
  have hentries : t.entries = u.entries := by
    refine t.ascending.eq_of_mem_iff u.ascending fun (k, v) => ?_
    rw [← t.ascending.find?_eq_some_iff, ← u.ascending.find?_eq_some_iff]
    exact Eq.congr_left (h k)
  cases t
  cases u
  cases hentries
  rfl

end

/-! ## Merged coverage -/

namespace BranchState

/-- The strongest state in a row, if there is any in it. -/
def strongest (states : List (Option BranchState)) : Option BranchState :=
  if some .passed ∈ states then some .passed
  else if some .failed ∈ states then some .failed
  else none

theorem strongest_congr {states others : List (Option BranchState)}
    (h : ∀ state, some state ∈ states ↔ some state ∈ others) :
    strongest states = strongest others := by
  simp only [strongest, h]

theorem strongest_eq_passed_iff {states : List (Option BranchState)} :
    strongest states = some .passed ↔ some .passed ∈ states := by
  unfold strongest
  split
  · next h => exact iff_of_true rfl h
  · next h =>
    refine iff_of_false ?_ h
    split <;> nofun

/-- The states of a row may as well be joined step by step. -/
theorem strongest_concat (states : List (Option BranchState)) (state : Option BranchState) :
    strongest (states ++ [state]) = strongest [strongest states, state] := by
  by_cases hp : some BranchState.passed ∈ states <;>
    by_cases hf : some BranchState.failed ∈ states <;>
    rcases state with _ | _ | _ <;> simp [strongest, hp, hf]

end BranchState

namespace Coverage

theorem state?_eq_some_iff {c : Coverage} {id : NodeId} {state : BranchState} :
    c.state? id = some state ↔ (id, state) ∈ c.states.entries :=
  c.states.ascending.find?_eq_some_iff

/-- The states of a coverage are those of its entries in a row. -/
theorem state?_eq_stateIn (c : Coverage) (id : NodeId) :
    c.state? id = stateIn c.states.entries id := by
  unfold stateIn
  simp only [← state?_eq_some_iff]
  rcases c.state? id with _ | _ | _ <;> rfl

/-- Merging keeps the stronger state of every branch. -/
theorem state?_merge (c other : Coverage) (id : NodeId) :
    (c.merge other).state? id = BranchState.strongest [c.state? id, other.state? id] := by
  have hrow : (c.merge other).state? id =
      stateIn (c.states.entries ++ other.states.entries) id :=
    state?_foldl other.states.entries c c.states.entries c.state?_eq_stateIn id
  rw [hrow]
  simp only [stateIn, List.mem_append, ← state?_eq_some_iff]
  rcases c.state? id with _ | _ | _ <;> rcases other.state? id with _ | _ | _ <;> rfl

theorem eq_of_state? {c other : Coverage} (h : ∀ id, c.state? id = other.state? id) : c = other :=
  congrArg Coverage.mk (Table.eq_of_get? h)

end Coverage

/-! ## What a collector is told -/

namespace Collector

/-- A transformation that is asked for. -/
structure Request where
  template : Template
  lookup : Lookup

/-- A transformation that succeeded, and what happened to the branches. -/
structure Success where
  template : Template
  coverage : Coverage

/-- What can happen to a collector. -/
inductive Action where
  | transform (request : Request)
  | clear

/-- The collector behind an action. It observes the transformations of the renderer `r`. -/
def act (r : Renderer) (c : Collector) : Action → Collector
  | .transform request => (r.transformObserved add c request.template request.lookup).2
  | .clear => .empty

/-- The collector behind a row of actions. -/
def after (r : Renderer) (actions : List Action) : Collector := actions.foldl (act r) .empty

/-- What was asked for before an action, and with it. A clear forgets. -/
def Action.recall (requests : List Request) : Action → List Request
  | .transform request => requests ++ [request]
  | .clear => []

/-- The transformations that were asked for since the last clear, in order. -/
def requests (actions : List Action) : List Request := actions.foldl Action.recall []

/-- The success of a transformation that does not fail. -/
def Request.success? (r : Renderer) (request : Request) : Option Success :=
  match (r.run true request.template request.lookup).result with
  | .ok statement => statement.coverage.map (⟨request.template, ·⟩)
  | .error _ => none

/-- A template is filed under its name, or under its source if it has no name. -/
def FiledUnder (key : String) (t : Template) : Prop :=
  t.name = some key ∨ t.name = none ∧ t.source = key

instance (key : String) : DecidablePred (FiledUnder key) :=
  fun t => inferInstanceAs (Decidable (t.name = some key ∨ t.name = none ∧ t.source = key))

/-- The successes under a key among transformations, in order. -/
def successes (r : Renderer) (key : String) (requests : List Request) : List Success :=
  (requests.filterMap (Request.success? r)).filter fun success => FiledUnder key success.template

/-- The report on successes: the branches of the first template, each with the strongest state that
any success has recorded for its number. Without a success there is no report. -/
def reportOn (successes : List Success) : Option CoverageReport :=
  successes.head?.map fun first => ⟨first.template.branches.map fun branch =>
    ⟨branch, BranchState.strongest (successes.map (·.coverage.state? branch.id))⟩⟩

/-- Templates under one key are one template. -/
def OneToAKey (requests : List Request) : Prop :=
  ∀ key, ∀ request ∈ requests, ∀ other ∈ requests,
    FiledUnder key request.template → FiledUnder key other.template →
      request.template = other.template

theorem filedUnder_iff {key : String} {t : Template} : FiledUnder key t ↔ key = t.key := by
  unfold FiledUnder Template.key
  cases t.name <;> simp [eq_comm]

theorem after_append (r : Renderer) (actions more : List Action) :
    after r (actions ++ more) = more.foldl (act r) (after r actions) :=
  List.foldl_append

theorem requests_append_transforms (actions : List Action) (more : List Request) :
    requests (actions ++ more.map .transform) = requests actions ++ more := by
  unfold requests
  rw [List.foldl_append, List.foldl_map]
  generalize actions.foldl Action.recall [] = front
  induction more generalizing front with
  | nil => simp
  | cons request rest ih =>
    rw [List.foldl_cons, ih]
    exact (List.append_cons front request rest).symm

/-- A transformation fails or is a success. -/
theorem Request.success?_eq_none_iff {r : Renderer} {request : Request} :
    request.success? r = none ↔
      ∃ e, (r.run true request.template request.lookup).result = .error e := by
  rw [success?, Renderer.run, Renderer.result_eq]
  cases request.template.tree.meaning ⟨request.lookup, r.evaluator, r.mappers⟩ with
  | error e => exact iff_of_true rfl ⟨e, rfl⟩
  | ok m =>
    constructor
    · intro hnone
      cases hnone
    · rintro ⟨e, he⟩
      cases he

theorem Request.template_of_success? {r : Renderer} {request : Request} {success : Success}
    (h : request.success? r = some success) : success.template = request.template := by
  unfold success? at h
  split at h
  · obtain ⟨coverage, -, rfl⟩ := Option.map_eq_some_iff.1 h
    rfl
  · cases h

/-- A collector adds what a success has recorded, and a failure leaves it alone. -/
theorem act_transform (r : Renderer) (c : Collector) (request : Request) :
    act r c (.transform request) =
      match request.success? r with
      | none => c
      | some success => c.add success.template success.coverage := by
  show (r.transformObserved add c request.template request.lookup).2 = _
  unfold Renderer.transformObserved Request.success?
  cases (r.run true request.template request.lookup).result with
  | error e => rfl
  | ok statement => cases hcoverage : statement.coverage <;> simp only [hcoverage] <;> rfl

section

variable {r : Renderer} {key : String}

theorem successes_append (requests more : List Request) :
    successes r key (requests ++ more) = successes r key requests ++ successes r key more := by
  rw [successes, List.filterMap_append, List.filter_append]
  rfl

theorem mem_successes {requests : List Request} {success : Success} :
    success ∈ successes r key requests ↔
      ∃ request ∈ requests, request.success? r = some success ∧
        FiledUnder key request.template := by
  rw [successes, List.mem_filter, List.mem_filterMap, decide_eq_true_iff]
  constructor
  · rintro ⟨⟨request, hmem, hsuccess⟩, hkey⟩
    exact ⟨request, hmem, hsuccess, Request.template_of_success? hsuccess ▸ hkey⟩
  · rintro ⟨request, hmem, hsuccess, hkey⟩
    exact ⟨⟨request, hmem, hsuccess⟩, Request.template_of_success? hsuccess ▸ hkey⟩

end

/-! ## What a collector holds -/

/-- What is held for a key is what the successes under it have recorded. -/
def HeldFor (successes : List Success) : Option Collected → Prop
  | none => successes = []
  | some collected =>
    (∃ first ∈ successes.head?, collected.branches = first.template.branches) ∧
      ∀ id, collected.coverage.state? id =
        BranchState.strongest (successes.map (·.coverage.state? id))

/-- The collector holds what the successes among transformations have recorded. -/
def Holds (r : Renderer) (c : Collector) (requests : List Request) : Prop :=
  ∀ key, HeldFor (successes r key requests) (c.entries.get? key)

/-- A further success adds its coverage, and its branches if it is the first one. -/
theorem HeldFor.concat {successes : List Success} {held : Option Collected}
    (h : HeldFor successes held) (success : Success) :
    let before := held.getD ⟨success.template.branches, .empty⟩
    HeldFor (successes ++ [success])
      (some ⟨before.branches, before.coverage.merge success.coverage⟩) := by
  cases held with
  | none =>
    obtain rfl : successes = [] := h
    refine ⟨⟨success, rfl, rfl⟩, fun id => ?_⟩
    show (Coverage.merge .empty success.coverage).state? id = _
    rw [Coverage.state?_merge]
    exact BranchState.strongest_congr fun state => by simp [Coverage.empty, Coverage.state?,
      Table.get?, Table.empty, Entries.find?]
  | some collected =>
    obtain ⟨⟨first, hfirst, hbranches⟩, hstates⟩ := h
    refine ⟨⟨first, ?_, hbranches⟩, fun id => ?_⟩
    · rw [List.head?_append, hfirst]
      rfl
    · show (collected.coverage.merge success.coverage).state? id = _
      rw [Coverage.state?_merge, hstates, List.map_append, List.map_singleton,
        BranchState.strongest_concat]

/-- What a collector holds goes along with every action. -/
theorem holds_act {r : Renderer} {c : Collector} {requests : List Request}
    (h : Holds r c requests) (action : Action) :
    Holds r (act r c action) (action.recall requests) := by
  intro key
  cases action with
  | clear => exact rfl
  | transform request =>
    show HeldFor (successes r key (requests ++ [request])) _
    rw [act_transform, successes_append]
    cases hsuccess : request.success? r with
    | none =>
      have hnone : successes r key [request] = [] := by simp [successes, hsuccess]
      rw [hnone, List.append_nil]
      exact h key
    | some success =>
      simp only [add, Table.get?_insert]
      by_cases hkey : key = success.template.key
      · subst hkey
        have hone : successes r success.template.key [request] = [success] := by
          simp [successes, hsuccess, filedUnder_iff]
        rw [hone, if_pos rfl]
        exact (h success.template.key).concat success
      · have hnone : successes r key [request] = [] := by
          simp [successes, hsuccess, filedUnder_iff, hkey]
        rw [hnone, List.append_nil, if_neg hkey]
        exact h key

/-- A collector holds what was recorded since the last clear. -/
theorem holds_after (r : Renderer) (actions : List Action) :
    Holds r (after r actions) (requests actions) := by
  have hall : ∀ (actions : List Action) (c : Collector) (requests : List Request),
      Holds r c requests →
        Holds r (actions.foldl (act r) c) (actions.foldl Action.recall requests) := by
    intro actions
    induction actions with
    | nil => exact fun _ _ h => h
    | cons action rest ih => exact fun _ _ h => ih _ _ (holds_act h action)
  exact hall actions .empty [] fun _ => rfl

/-- What is reported for a key is the report on the successes under it. -/
theorem HeldFor.report {successes : List Success} {held : Option Collected}
    (h : HeldFor successes held) : held.map Collected.report = reportOn successes := by
  cases held with
  | none =>
    obtain rfl : successes = [] := h
    rfl
  | some collected =>
    obtain ⟨⟨first, hfirst, hbranches⟩, hstates⟩ := h
    rw [reportOn, hfirst]
    simp only [Option.map_some, Collected.report, CoverageReport.of, hbranches, hstates]

/-- The order of successes does not matter to what is held, if all are of one template. -/
theorem HeldFor.eq_of_perm {successes others : List Success} {held held' : Option Collected}
    (h : HeldFor successes held) (hothers : HeldFor others held') (hperm : successes.Perm others)
    (hone : ∀ success ∈ successes, ∀ other ∈ successes, success.template = other.template) :
    held = held' := by
  cases held with
  | none =>
    obtain rfl : successes = [] := h
    obtain rfl : others = [] := hperm.nil_eq.symm
    cases held' with
    | none => rfl
    | some collected =>
      obtain ⟨⟨first, hfirst, -⟩, -⟩ := hothers
      cases hfirst
  | some collected =>
    obtain ⟨⟨first, hfirst, hbranches⟩, hstates⟩ := h
    cases held' with
    | none =>
      obtain rfl : others = [] := hothers
      rw [hperm.eq_nil] at hfirst
      cases hfirst
    | some collected' =>
      obtain ⟨⟨first', hfirst', hbranches'⟩, hstates'⟩ := hothers
      have htemplate : first.template = first'.template :=
        hone first (List.mem_of_mem_head? hfirst) first'
          (hperm.mem_iff.2 (List.mem_of_mem_head? hfirst'))
      have hlisted : collected.branches = collected'.branches := by
        rw [hbranches, hbranches', htemplate]
      have hcoverage : collected.coverage = collected'.coverage := by
        refine Coverage.eq_of_state? fun id => ?_
        rw [hstates, hstates']
        exact BranchState.strongest_congr fun state => (hperm.map _).mem_iff
      obtain ⟨branches, coverage⟩ := collected
      obtain ⟨branches', coverage'⟩ := collected'
      rw [Option.some.injEq, Collected.mk.injEq]
      exact ⟨hlisted, hcoverage⟩

/-- The order of transformations does not matter, if there is one template to a key. -/
theorem Holds.eq_of_perm {r : Renderer} {c c' : Collector} {requests others : List Request}
    (h : Holds r c requests) (hothers : Holds r c' others) (hperm : requests.Perm others)
    (hone : OneToAKey requests) : c = c' := by
  obtain ⟨entries⟩ := c
  obtain ⟨entries'⟩ := c'
  refine congrArg Collector.mk (Table.eq_of_get? fun key => ?_)
  refine (h key).eq_of_perm (hothers key) ((hperm.filterMap _).filter _) ?_
  intro success hsuccess other hother
  obtain ⟨request, hrequest, hsuccess, hkey⟩ := mem_successes.1 hsuccess
  obtain ⟨request', hrequest', hother, hkey'⟩ := mem_successes.1 hother
  rw [Request.template_of_success? hsuccess, Request.template_of_success? hother]
  exact hone key request hrequest request' hrequest' hkey hkey'

/-- Further successes cover no fewer branches. -/
theorem covered_le_of_reportOn {successes : List Success} {report : CoverageReport}
    (h : reportOn successes = some report) (more : List Success) :
    ∃ later, reportOn (successes ++ more) = some later ∧ report.covered ≤ later.covered := by
  obtain ⟨first, hfirst, rfl⟩ := Option.map_eq_some_iff.1 h
  have hlater : (successes ++ more).head? = some first := by
    rw [List.head?_append, hfirst]
    rfl
  refine ⟨_, by rw [reportOn, hlater]; rfl, ?_⟩
  simp only [CoverageReport.covered, List.countP_map]
  refine List.countP_mono_left fun branch _ hcovered => ?_
  simp only [Function.comp_apply, BranchCoverage.covered, beq_iff_eq,
    BranchState.strongest_eq_passed_iff] at hcovered ⊢
  rw [List.map_append]
  exact List.mem_append_left _ hcovered

theorem mem_reports {c : Collector} {key : String} {report : CoverageReport} :
    (key, report) ∈ c.reports ↔ c.report? key = some report := by
  simp only [reports, report?, Table.get?, List.mem_map, Option.map_eq_some_iff, Prod.exists,
    Prod.mk.injEq, c.entries.ascending.find?_eq_some_iff]
  constructor
  · rintro ⟨_, collected, hmem, rfl, hreport⟩
    exact ⟨collected, hmem, hreport⟩
  · rintro ⟨collected, hmem, hreport⟩
    exact ⟨key, collected, hmem, rfl, hreport⟩

/-- There is no report under a key exactly if every transformation under it since the last clear has
failed. Otherwise the report is on the successes under the key since then: it lists the branches of
the first template, each in the strongest state that any of them has recorded. The reports are those
of all keys, in ascending order. Where there is one template to a key, transformations between two
clears may change places, and the collector is the same then and whatever happens later. Between two
clears a report covers no fewer branches as time goes on. -/
theorem report_after (r : Renderer) (actions : List Action) :
    let c := after r actions
    (∀ key, c.report? key = none ↔ ∀ request ∈ requests actions, FiledUnder key request.template →
      ∃ e, (r.run true request.template request.lookup).result = .error e) ∧
    (∀ key, c.report? key = reportOn (successes r key (requests actions))) ∧
    c.reports.Pairwise (fun a b => compare a.1 b.1 = .lt) ∧
    (∀ key report, (key, report) ∈ c.reports ↔ c.report? key = some report) ∧
    (∀ (more others : List Request) (behind : List Action), more.Perm others →
      OneToAKey (requests actions ++ more) →
      after r (actions ++ more.map .transform ++ behind) =
        after r (actions ++ others.map .transform ++ behind)) ∧
    ∀ (more : List Request) key report, c.report? key = some report →
      ∃ later, (after r (actions ++ more.map .transform)).report? key = some later ∧
        report.covered ≤ later.covered := by
  intro c
  have hreport (actions : List Action) (key : String) :
      (after r actions).report? key = reportOn (successes r key (requests actions)) :=
    (holds_after r actions key).report
  refine ⟨fun key => ?_, hreport actions, ?_, fun _ _ => mem_reports, ?_, ?_⟩
  · rw [hreport, reportOn, Option.map_eq_none_iff, List.head?_eq_none_iff,
      List.eq_nil_iff_forall_not_mem]
    constructor
    · intro hnone request hrequest hkey
      refine Request.success?_eq_none_iff.1 (Option.eq_none_iff_forall_ne_some.2 ?_)
      intro success hsuccess
      exact hnone success (mem_successes.2 ⟨request, hrequest, hsuccess, hkey⟩)
    · intro hfails success hmem
      obtain ⟨request, hrequest, hsuccess, hkey⟩ := mem_successes.1 hmem
      rw [Request.success?_eq_none_iff.2 (hfails request hrequest hkey)] at hsuccess
      cases hsuccess
  · exact List.pairwise_map.2 c.entries.ascending
  · intro more others behind hperm hone
    have hsame : after r (actions ++ more.map .transform) =
        after r (actions ++ others.map .transform) := by
      have hmore := holds_after r (actions ++ more.map .transform)
      have hothers := holds_after r (actions ++ others.map .transform)
      rw [requests_append_transforms] at hmore hothers
      exact hmore.eq_of_perm hothers (hperm.append_left _) hone
    rw [after_append, after_append r _ behind, hsame]
  · intro more key report hsome
    rw [hreport] at hsome
    rw [hreport, requests_append_transforms, successes_append]
    exact covered_le_of_reportOn hsome _

/-- A template that is covered by two runs. -/
def flagQuery : Template where
  name := some "flag"
  source := "/*IF flag*/on/*ELSE*/off/*END*/"
  tree := ⟨[.chain "flag" ⟨0, 1, 1⟩ [.text "on"] (.otherwise ⟨13, 1, 14⟩ [.text "off"])]⟩
  ofSource_source := by with_unfolding_all rfl

/-- The same without a name. -/
def unnamedFlagQuery : Template := { flagQuery with name := none }

/-- Another template without a name. -/
def unnamedQuery : Template where
  name := none
  source := "/*IF flag*/!/*END*/"
  tree := ⟨[.chain "flag" ⟨0, 1, 1⟩ [.text "!"] .done]⟩
  ofSource_source := by with_unfolding_all rfl

def flagRequest (t : Template) (flag : Value) : Request :=
  ⟨t, (Parameters.ofList [("flag", flag)]).lookup⟩

/-- Behind a clear, a run that fails and runs of three templates, of which two have no name. Of two
runs more one fails, in either order. -/
theorem report_after_flagQuery :
    let r := Renderer.stock
    let actions : List Action := [.transform (flagRequest flagQuery (.bool true)), .clear,
      .transform (flagRequest flagQuery .null), .transform (flagRequest flagQuery (.bool false)),
      .transform (flagRequest unnamedFlagQuery (.bool true)),
      .transform (flagRequest unnamedQuery (.bool false))]
    let more := [flagRequest flagQuery (.bool true), flagRequest flagQuery (.int 1)]
    let report : CoverageReport :=
      ⟨[⟨⟨1, .ifThen, some "flag", ⟨0, 1, 1⟩⟩, some .failed⟩,
        ⟨⟨3, .otherwise, none, ⟨13, 1, 14⟩⟩, some .passed⟩]⟩
    OneToAKey (requests actions ++ more) ∧
      (after r actions).report? "flag" = some report ∧
      (after r actions).report? "/*IF flag*/on/*ELSE*/off/*END*/" = some
        ⟨[⟨⟨1, .ifThen, some "flag", ⟨0, 1, 1⟩⟩, some .passed⟩,
          ⟨⟨3, .otherwise, none, ⟨13, 1, 14⟩⟩, none⟩]⟩ ∧
      (after r actions).report? "/*IF flag*/!/*END*/" = some
        ⟨[⟨⟨1, .ifThen, some "flag", ⟨0, 1, 1⟩⟩, some .failed⟩]⟩ ∧
      after r (actions ++ more.map .transform) =
        after r (actions ++ more.reverse.map .transform) ∧
      ∃ later, (after r (actions ++ more.map .transform)).report? "flag" = some later ∧
        report.covered ≤ later.covered := by
  intro r actions more report
  obtain ⟨-, hreport, -, -, hperm, hcovered⟩ := report_after r actions
  have hall : ∀ request ∈ requests actions ++ more,
      request.template ∈ [flagQuery, unnamedFlagQuery, unnamedQuery] := by
    simp [requests, actions, more, Action.recall, flagRequest]
  have hkeys : ([flagQuery, unnamedFlagQuery, unnamedQuery].map Template.key).Nodup := by decide
  have hone : OneToAKey (requests actions ++ more) := by
    intro key request hrequest other hother hkey hkey'
    refine List.inj_on_of_nodup_map hkeys (hall request hrequest) (hall other hother) ?_
    exact (filedUnder_iff.1 hkey).symm.trans (filedUnder_iff.1 hkey')
  have hflag : (after r actions).report? "flag" = some report := by
    rw [hreport]
    decide +kernel
  have hsame := hperm more more.reverse [] more.reverse_perm.symm hone
  rw [List.append_nil, List.append_nil] at hsame
  refine ⟨hone, hflag, ?_, ?_, hsame, hcovered more "flag" report hflag⟩
  · rw [hreport]
    decide +kernel
  · rw [hreport]
    decide +kernel

end Collector

end TwoWaySql
