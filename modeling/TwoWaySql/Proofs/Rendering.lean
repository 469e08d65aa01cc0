import TwoWaySql.Proofs.Meaning

/-!
# Rendering gives the meaning

`Follows p d r`: the step `p`, taken from the draft `d`, does what the meaning `r` says. It fails
with the error of `r`, or it leaves `d` behind with the meaning written onto it
(`Draft.extend`), whatever was on `d` before. The relation has an algebra of its own: one lemma for
each way in which meanings are put together. With it the main result is one induction over the tree
(`Node.render_follows`), from which a run of a renderer has the meaning of its tree for a result
(`Renderer.result_eq`).

Events are not part of the meaning, so `Draft.extend` takes them as they are.
-/

namespace TwoWaySql

/-! ## Fragments -/

namespace Fragment

theorem layOut_append_congr {style : Placeholder} {more less : List Fragment}
    (h : ∀ index, layOut style index more = layOut style index less) (before : List Fragment)
    (index : Nat) : layOut style index (before ++ more) = layOut style index (before ++ less) := by
  induction before generalizing index with
  | nil => exact h index
  | cons f rest ih => cases f <;> simp [layOut, ih]

/-- Merging texts does not change how a row reads. -/
theorem layOut_push (style : Placeholder) (f : Fragment) (fragments more : List Fragment)
    (index : Nat) :
    layOut style index ((push f fragments).reverse ++ more) =
      layOut style index (fragments.reverse ++ f :: more) := by
  unfold push
  split
  · next content before rest =>
    split
    · next hc =>
      rw [String.isEmpty_iff] at hc
      subst hc
      exact layOut_append_congr (fun i => by simp [layOut]) _ _
    · rw [List.reverse_cons, List.reverse_cons, List.append_assoc, List.append_assoc]
      exact layOut_append_congr (fun i => by simp [layOut, String.append_assoc]) _ _
  · next content _ =>
    split
    · next hc =>
      rw [String.isEmpty_iff] at hc
      subst hc
      exact layOut_append_congr (fun i => by simp [layOut]) _ _
    · simp
  · simp

theorem push_text_append (before content : String) (fragments : List Fragment) :
    push (.text content) (push (.text before) fragments) =
      push (.text (before ++ content)) fragments := by
  by_cases hb : before = "" <;> by_cases hc : content = "" <;>
    cases fragments with
    | nil => simp [push, hb, hc]
    | cons f rest => cases f <;> simp [push, hb, hc, String.append_assoc]

/-- Moving fragments one by one onto others, merged before or merged on the way. -/
theorem foldr_push_push (f : Fragment) (inner fragments : List Fragment) :
    (push f inner).foldr push fragments = push f (inner.foldr push fragments) := by
  cases f with
  | placeholder => rfl
  | text content =>
    -- only a text in front of a text is merged, and only an empty one vanishes
    cases inner with
    | nil =>
      by_cases hc : content = ""
      · subst hc
        cases fragments with
        | nil => rfl
        | cons g rest => cases g <;> rfl
      · simp [push, hc]
    | cons g rest =>
      cases g with
      | placeholder => by_cases hc : content = "" <;> simp [push, hc]
      | text before =>
        by_cases hc : content = ""
        · subst hc
          show push (.text before) (rest.foldr push fragments) =
            push (.text "") (push (.text before) (rest.foldr push fragments))
          rw [push_text_append, String.append_empty]
        · simp only [push, List.foldr_cons]
          rw [if_neg (by simpa using hc)]
          exact (push_text_append before content _).symm

/-- Fragments with pieces behind them, in reverse order. -/
def pushPieces (pieces : List Piece) (fragments : List Fragment) : List Fragment :=
  pieces.foldl (fun fragments p => push p.fragment fragments) fragments

theorem pushPieces_append (pieces more : List Piece) (fragments : List Fragment) :
    pushPieces (pieces ++ more) fragments = pushPieces more (pushPieces pieces fragments) :=
  List.foldl_append

theorem foldr_pushPieces (pieces : List Piece) (inner fragments : List Fragment) :
    (pushPieces pieces inner).foldr push fragments =
      pushPieces pieces (inner.foldr push fragments) := by
  induction pieces generalizing inner with
  | nil => rfl
  | cons p rest ih =>
    show (pushPieces rest (push p.fragment inner)).foldr push fragments = _
    rw [ih, foldr_push_push]
    rfl

theorem layOut_pushPieces (style : Placeholder) (pieces : List Piece) (fragments : List Fragment)
    (index : Nat) :
    layOut style index (pushPieces pieces fragments).reverse =
      layOut style index (fragments.reverse ++ pieces.map Piece.fragment) := by
  induction pieces generalizing fragments with
  | nil => simp [pushPieces]
  | cons p rest ih =>
    show layOut style index (pushPieces rest (push p.fragment fragments)).reverse = _
    rw [ih, layOut_push, List.map_cons]

end Fragment

/-! ## A meaning written onto a draft -/

namespace Draft

/-- Absent names with further ones behind them, each once. -/
def addNames (names more : List String) : List String :=
  more.foldl (fun names name => if names.contains name then names else names ++ [name]) names

theorem addNames_append (names more last : List String) :
    addNames names (more ++ last) = addNames (addNames names more) last :=
  List.foldl_append

theorem addNames_cons (name : String) (names more : List String) :
    ∃ rest, addNames (name :: names) more = name :: rest := by
  induction more generalizing names with
  | nil => exact ⟨names, rfl⟩
  | cons next more ih =>
    show ∃ rest, addNames
      (if (name :: names).contains next then name :: names else name :: names ++ [next]) more = _
    split
    · exact ih names
    · exact ih (names ++ [next])

/-- The draft with a meaning written onto it. Events are as given. -/
def extend (d : Draft) (m : Meaning) (events : List Event) : Draft where
  fragments := Fragment.pushPieces m.pieces d.fragments
  binds := (Piece.slots m.pieces).reverse ++ d.binds
  coverage := d.coverage.map fun c => m.states.foldl (fun c e => c.record e.1 e.2) c
  events := events
  optional := d.optional
  live := d.live || m.live
  absent := addNames d.absent m.absent

/-- Writing two meanings one after the other is writing both of them in a row. -/
theorem extend_extend (d : Draft) (m n : Meaning) (events later : List Event) :
    (d.extend m events).extend n later = d.extend (m.append n) later := by
  have hc : ((d.coverage.map fun c => m.states.foldl (fun c e => c.record e.1 e.2) c).map
        fun c => n.states.foldl (fun c e => c.record e.1 e.2) c) =
      d.coverage.map fun c => (m.states ++ n.states).foldl (fun c e => c.record e.1 e.2) c := by
    cases d.coverage <;> simp
  simp only [extend, Meaning.append, Fragment.pushPieces_append, Piece.slots_append,
    List.reverse_append, List.append_assoc, Bool.or_assoc, addNames_append, hc]

theorem extend_nothing (d : Draft) (events : List Event) :
    d.extend (.ofPieces []) events = { d with events } := by
  simp [extend, Meaning.ofPieces, Fragment.pushPieces, Piece.slots, addNames]

theorem write_eq (d : Draft) (content : String) :
    d.write content = d.extend (.ofPieces [.text content]) d.events := by
  simp [extend, write, Meaning.ofPieces, Fragment.pushPieces, Piece.fragment, Piece.slots, addNames]

theorem bind_eq (d : Draft) (name : String) (v : Value) :
    d.bind name v = d.extend (.ofPieces [.slot ⟨name, v⟩]) d.events := by
  simp [extend, bind, Meaning.ofPieces, Fragment.pushPieces, Piece.fragment, Piece.slots, addNames]

theorem extend_pieces (d : Draft) (pieces more : List Piece) (events later : List Event) :
    (d.extend (.ofPieces pieces) events).extend (.ofPieces more) later =
      d.extend (.ofPieces (pieces ++ more)) later :=
  extend_extend ..

theorem bindItems_eq (mappers : List Mapper) (name : String) (items : List Value) (d : Draft) :
    bindItems mappers name d items =
      d.extend (.ofPieces
        ((items.map fun v => Piece.slot ⟨name, Mapper.firstBind mappers v⟩).intersperse
          (.text ", "))) d.events := by
  induction items generalizing d with
  | nil => exact (extend_nothing d d.events).symm
  | cons v rest ih =>
    cases rest with
    | nil =>
      show d.bind name (Mapper.bindAll mappers v) = _
      rw [Mapper.bindAll_eq_firstBind]
      exact bind_eq ..
    | cons w rest =>
      show bindItems mappers name ((d.bind name (Mapper.bindAll mappers v)).write ", ")
        (w :: rest) = _
      rw [ih, Mapper.bindAll_eq_firstBind, write_eq, bind_eq, extend_pieces, extend_pieces]
      rfl

theorem bindMapped_eq (mappers : List Mapper) (name : String) (v : Value) (d : Draft) :
    bindMapped mappers name v d =
      d.extend (.ofPieces (Piece.ofMapped mappers name v)) d.events := by
  cases v with
  | list items =>
    cases items with
    | nil => exact write_eq ..
    | cons v rest => exact bindItems_eq ..
  | _ => exact bind_eq ..

theorem bindVariable_eq (mappers : List Mapper) (name : String) (paren : Bool) (v : Value)
    (d : Draft) :
    bindVariable mappers name paren v d =
      d.extend (.ofPieces (Piece.ofBind mappers name paren v)) d.events := by
  unfold bindVariable
  rw [Mapper.bindAll_eq_firstBind]
  cases paren with
  | false => exact bindMapped_eq ..
  | true =>
    show (bindMapped mappers name (Mapper.firstBind mappers v) (d.write "(")).write ")" = _
    rw [write_eq, bindMapped_eq, write_eq, extend_pieces, extend_pieces]
    rfl

theorem noteAbsent_eq (d : Draft) (name : String) :
    d.noteAbsent name = d.extend ⟨[], false, [name], []⟩ d.events := by
  unfold noteAbsent
  by_cases hn : name ∈ d.absent <;>
    simp [extend, addNames, Fragment.pushPieces, Piece.slots, hn]

theorem embedVariable_eq (mappers : List Mapper) (quoted : Bool) (v : Value) (d : Draft) :
    embedVariable mappers quoted v d =
      d.extend (.ofPieces (Piece.ofEmbedded mappers quoted v)) d.events := by
  rw [embedVariable, Mapper.literalAll_eq_firstLiteral]
  exact write_eq ..

end Draft

/-! ## Steps that follow a meaning -/

/-- The step, taken from the draft `d`, does what the meaning says. -/
def Follows (p : Progress) (d : Draft) : Except Error Meaning → Prop
  | .error e => p.failure = some e
  | .ok m => ∃ events, p = .done (d.extend m events)

namespace Follows

variable {p : Progress} {d : Draft} {r : Except Error Meaning}

theorem failure_andThen {e : Error} (h : p.failure = some e) (step : Draft → Progress) :
    (p.andThen step).failure = some e := by
  rw [Progress.andThen, h]
  exact h

theorem nothing (d : Draft) (events : List Event) :
    Follows (.done { d with events }) d (.ok (.ofPieces [])) :=
  ⟨events, by rw [Draft.extend_nothing]⟩

/-- A further step follows what comes next, wherever the first one leads. -/
theorem inRow {step : Draft → Progress} {next : Except Error Meaning} (h : Follows p d r)
    (hnext : ∀ d', d'.optional = d.optional → Follows (step d') d' next) :
    Follows (p.andThen step) d (Meaning.inRow r next) := by
  cases r with
  | error e => exact failure_andThen h step
  | ok m =>
    obtain ⟨events, rfl⟩ := h
    have hn := hnext (d.extend m events) rfl
    rw [Progress.done_andThen]
    cases next with
    | error e => exact hn
    | ok n =>
      obtain ⟨later, hl⟩ := hn
      exact ⟨later, by rw [hl, Draft.extend_extend]⟩

/-- A variable is used with the draft kept live, or it is noted as absent. -/
theorem withVariable (s : Surroundings) (d : Draft) (name : String) {use : Value → Draft → Draft}
    {pieces : Value → List Piece}
    (huse : ∀ v d', use v d' = d'.extend (.ofPieces (pieces v)) d'.events) :
    Follows (d.withVariable s.lookup name use) d (s.resolved d.optional name pieces) := by
  unfold Draft.withVariable Surroundings.resolved
  rw [Lookup.resolve?_eq_given]
  cases s.lookup.given name with
  | error fault => exact rfl
  | ok found =>
    cases found with
    | some v =>
      -- the draft becomes live before the value is used
      refine ⟨d.events, ?_⟩
      show Progress.done (use v d.markLive) = _
      rw [huse]
      simp [Draft.extend, Draft.markLive, Meaning.ofPieces]
    | none =>
      cases d.optional with
      | false => exact rfl
      | true =>
        refine ⟨d.events, ?_⟩
        show Progress.done (d.noteAbsent name) = _
        rw [Draft.noteAbsent_eq]

/-- A condition that fails ends the step; one that holds or not leads on, with an event at most. -/
theorem decide (s : Surroundings) (condition : String) (d : Draft)
    {next : Bool → Draft → Progress} {yes no : Except Error Meaning}
    (hyes : ∀ d', d'.optional = d.optional → Follows (next true d') d' yes)
    (hno : ∀ d', d'.optional = d.optional → Follows (next false d') d' no) :
    Follows (s.decide condition d next) d (s.choose condition yes no) := by
  unfold Surroundings.decide Surroundings.choose Surroundings.holds
  cases s.evaluator.evaluate condition s.lookup with
  | error e => exact rfl
  | ok v =>
    cases v with
    | bool b =>
      -- An event does not count in `Draft.extend`, so the step may as well start behind it.
      have logged (e : Event) {p : Progress} {r : Except Error Meaning}
          (h : Follows p (d.log e) r) : Follows p d r := by
        cases r <;> exact h
      cases b with
      | true =>
        show Follows (next true _) d yes
        split
        · exact logged _ (hyes _ rfl)
        · exact hyes d rfl
      | false =>
        show Follows (next false _) d no
        split
        · exact logged _ (hno _ rfl)
        · exact hno d rfl
    | _ => exact rfl

theorem taken {branch : NodeId} {outcome : Outcome} (h : Follows p (d.enter branch outcome) r) :
    Follows p d (r.map (.taken branch)) := by
  cases r with
  | error e => exact h
  | ok m =>
    obtain ⟨events, rfl⟩ := h
    refine ⟨events, ?_⟩
    simp only [Draft.extend, Draft.enter, Draft.markLive, Draft.log, Draft.record, Meaning.taken,
      Option.map_map, Bool.true_or, Bool.or_true]
    rfl

theorem passedOver {branch : NodeId} (h : Follows p (d.record branch .failed) r) :
    Follows p d (r.map (.passedOver branch)) := by
  cases r with
  | error e => exact h
  | ok m =>
    obtain ⟨events, rfl⟩ := h
    refine ⟨events, ?_⟩
    simp only [Draft.extend, Draft.record, Meaning.passedOver, Option.map_map]
    rfl

theorem settle {m : Meaning} (events : List Event) :
    Follows (d.settle (d.inside.extend m events)) d m.settled := by
  unfold Draft.settle Meaning.settled
  -- the draft inside starts neither live nor with absent names, so both come from `m` alone
  have hlive : (d.inside.extend m events).live = m.live := rfl
  rw [hlive]
  cases hl : m.live with
  | false =>
    let discarded : Event :=
      .discardedBlock (Fragment.pushPieces m.pieces []).length (Piece.slots m.pieces).length
    refine ⟨discarded :: events, ?_⟩
    simp [Draft.extend, Draft.log, Draft.inside, Fragment.pushPieces, Piece.slots, Draft.addNames,
      hl, discarded]
  | true =>
    cases ha : m.absent with
    | nil =>
      have hnone : (d.inside.extend m events).absent = [] := by
        simp [Draft.extend, Draft.inside, Draft.addNames, ha]
      rw [if_pos rfl, hnone]
      refine ⟨events, ?_⟩
      simp [Draft.extend, Draft.inside, Fragment.foldr_pushPieces, Draft.addNames, ha, hl]
    | cons name names =>
      obtain ⟨rest, hrest⟩ := Draft.addNames_cons name [] names
      have hsome : (d.inside.extend m events).absent = name :: rest := by
        rw [← hrest, Draft.extend, ha]
        rfl
      rw [if_pos rfl, hsome]
      exact rfl

/-- An optional block, the body of which is rendered onto a draft of its own. -/
theorem block (h : Follows p d.inside r) : Follows (p.andThen d.settle) d (Meaning.block r) := by
  cases r with
  | error e => exact failure_andThen h d.settle
  | ok m =>
    obtain ⟨events, rfl⟩ := h
    rw [Progress.done_andThen]
    exact settle events

end Follows

/-! ## Rendering -/

mutual

/-- Rendering a node follows its meaning, from any draft. -/
theorem Node.render_follows (s : Surroundings) :
    ∀ (node : Node) (start : NodeId) (d : Draft),
      Follows (node.render s start d) d (node.meaning s d.optional start)
  | .text content, start, d => by
    refine ⟨d.events, ?_⟩
    show Progress.done (d.write content) = _
    rw [Draft.write_eq]
  | .bind name paren, start, d => by
    simp only [Node.render, Node.meaning]
    exact .withVariable s d name (Draft.bindVariable_eq s.mappers name paren)
  | .embedded name quoted, start, d => by
    simp only [Node.render, Node.meaning]
    exact .withVariable s d name (Draft.embedVariable_eq s.mappers quoted)
  | .chain condition _ body rest, start, d => by
    simp only [Node.render, Node.meaning]
    refine .decide s condition d (fun d' ho => ?_) (fun d' ho => ?_)
    · rw [if_pos rfl, ← ho]
      exact .taken (Node.renderAll_follows s body start _)
    · rw [if_neg Bool.false_ne_true, ← ho]
      exact .passedOver (Chain.render_follows s rest _ _ _)
  | .block body, start, d => by
    simp only [Node.render, Node.meaning]
    exact .block (Node.renderAll_follows s body start d.inside)

theorem Chain.render_follows (s : Surroundings) :
    ∀ (chain : Chain) (start : NodeId) (number : Nat) (d : Draft),
      Follows (chain.render s start number d) d (chain.meaning s d.optional start)
  | .done, start, number, d => .nothing d _
  | .elseIf condition _ body rest, start, number, d => by
    simp only [Chain.render, Chain.meaning]
    refine .decide s condition d (fun d' ho => ?_) (fun d' ho => ?_)
    · rw [if_pos rfl, ← ho]
      exact .taken (Node.renderAll_follows s body start _)
    · rw [if_neg Bool.false_ne_true, ← ho]
      exact .passedOver (Chain.render_follows s rest _ _ _)
  | .otherwise _ body, start, number, d => by
    simp only [Chain.render, Chain.meaning]
    exact .taken (Node.renderAll_follows s body start _)

theorem Node.renderAll_follows (s : Surroundings) :
    ∀ (nodes : List Node) (start : NodeId) (d : Draft),
      Follows (Node.renderAll s start nodes d) d (Node.meaningAll s d.optional start nodes)
  | [], start, d => .nothing d d.events
  | node :: rest, start, d => by
    simp only [Node.renderAll, Node.meaningAll]
    refine .inRow (Node.render_follows s node start d) fun d' ho => ?_
    rw [← ho]
    exact Node.renderAll_follows s rest _ d'

end

/-! ## Runs -/

theorem Draft.statement_extend (recorded : Bool) (m : Meaning) (events : List Event)
    (settings : Settings) :
    ((Draft.blank recorded).extend m events).statement settings =
      m.statement settings recorded := by
  have hsql : Fragment.layOut settings.placeholder 0
      (Fragment.pushPieces m.pieces []).reverse =
      Piece.layOut settings.placeholder 0 m.pieces := by
    rw [Fragment.layOut_pushPieces, Piece.layOut_eq]
    rfl
  cases recorded <;>
    simp [Draft.statement, Draft.extend, Draft.blank, Meaning.statement, Meaning.coverage, hsql]

namespace Renderer

/-- The result of a run is the meaning of its tree. -/
theorem result_eq (r : Renderer) (recorded : Bool) (name : String) (t : Tree) (l : Lookup) :
    (r.runTree recorded name t l).result =
      (t.meaning ⟨l, r.evaluator, r.mappers⟩).map (Meaning.statement r.settings recorded) := by
  have h := Node.renderAll_follows ⟨l, r.evaluator, r.mappers⟩ t.nodes 0 (.blank recorded)
  rw [show (Draft.blank recorded).optional = false from rfl] at h
  unfold runTree Tree.render Tree.meaning
  cases hm : Node.meaningAll ⟨l, r.evaluator, r.mappers⟩ false 0 t.nodes with
  | error e =>
    rw [hm] at h
    have hf : (Node.renderAll ⟨l, r.evaluator, r.mappers⟩ 0 t.nodes
      (.blank recorded)).failure = some e := h
    simp only [hf]
    rfl
  | ok m =>
    rw [hm] at h
    obtain ⟨events, he⟩ := h
    simp only [he, Progress.done, Draft.statement_extend]
    rfl

/-- A transformation of a tree gives the statement or the error that the tree means, whatever the
lookup, the evaluator, the mappers and the settings are; so does one of a template. -/
theorem transform_eq_meaning (r : Renderer) (l : Lookup) :
    (∀ (recorded : Bool) (name : String) (t : Tree),
      (r.runTree recorded name t l).result =
        (t.meaning ⟨l, r.evaluator, r.mappers⟩).map (Meaning.statement r.settings recorded)) ∧
    ∀ t : Template, r.transform t l =
      (t.tree.meaning ⟨l, r.evaluator, r.mappers⟩).map
        (Meaning.statement r.settings r.settings.coverage) := by
  refine ⟨fun recorded name t => ?_, fun t => ?_⟩
  · exact r.result_eq recorded name t l
  · exact r.result_eq r.settings.coverage (t.name.getD "") t.tree l

/-- Null is a dash, and so is every boolean that no mapper in front of this one has answered for. -/
def dashes : Mapper where
  toBind := fun v => if v.isNull || v.asBool?.isSome then some (.string "-") else none
  toLiteral := fun v => if v.isNull || v.asBool?.isSome then some "-" else none

/-- Variables of each form, and a block that is discarded. -/
def mappedQuery : Template where
  name := none
  source :=
    "a = /*a*/1 AND b IN /*b*/(1) AND c = /*#c*/'' AND d = /*$d*/0/*BEGIN*/ AND :gone/*END*/" ++
    " ORDER BY /*$e*/id"
  tree := ⟨[.text "a = ", .bind "a" false, .text " AND b IN ", .bind "b" true, .text " AND c = ",
    .embedded "c" true, .text " AND d = ", .embedded "d" false,
    .block [.text " AND ", .bind "gone" false], .text " ORDER BY ", .embedded "e" false]⟩
  ofSource_source := by with_unfolding_all rfl

def mappedParameters : Parameters :=
  .ofList [("a", .bool true), ("b", .list [.bool false, .null, .int 3]), ("c", .string "O'Brien"),
    ("d", .null), ("e", .string "O'Brien")]

def mappedStatement : Statement where
  sql := "a = ? AND b IN (?, ?, ?) AND c = 'O''Brien' AND d = - ORDER BY O'Brien"
  binds := [⟨"a", .int 1⟩, ⟨"b", .int 0⟩, ⟨"b", .string "-"⟩, ⟨"b", .int 3⟩]
  coverage := none

/-- Of two mappers that answer for booleans the first one decides, for the items of a list as well;
what no mapper answers for stays as it is. -/
theorem transform_eq_meaning_mappedQuery :
    let r : Renderer := ⟨{}, .stock [], [.booleanAsInteger, dashes]⟩
    let l := mappedParameters.lookup
    r.transform mappedQuery l = .ok mappedStatement ∧
      (mappedQuery.tree.meaning ⟨l, r.evaluator, r.mappers⟩).map
        (Meaning.statement r.settings r.settings.coverage) = .ok mappedStatement := by
  intro r l
  have hsame := (transform_eq_meaning r l).2 mappedQuery
  have htransform : r.transform mappedQuery l = .ok mappedStatement := rfl
  exact ⟨htransform, hsame.symm.trans htransform⟩

end Renderer

end TwoWaySql
