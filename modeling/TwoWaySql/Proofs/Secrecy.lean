import TwoWaySql.Proofs.Marks
import TwoWaySql.Proofs.Rendering

/-!
# Bound values stay out of the text

Two lookups that a template cannot tell apart but by the values that it binds
(`Renderer.Indistinct`) give the same error or the same text, with the same names in the list of
bind values (`Renderer.transform_indistinct`). The meaning under both is the same once the values in
the slots are hidden (`Meaning.hide`, `Node.hide_meaning`), and the text reads nothing else
(`Piece.layOut_hide`).
-/

namespace TwoWaySql

/-! ## Hiding values -/

/-- The piece with null for its value. -/
def Piece.hide : Piece → Piece
  | .text content => .text content
  | .slot bound => .slot ⟨bound.name, .null⟩

/-- The meaning with its values hidden. -/
def Meaning.hide (m : Meaning) : Meaning := { m with pieces := m.pieces.map Piece.hide }

namespace Piece

theorem layOut_hide (style : Placeholder) (index : Nat) (pieces : List Piece) :
    layOut style index (pieces.map hide) = layOut style index pieces := by
  induction pieces generalizing index with
  | nil => rfl
  | cons p rest ih => cases p <;> simp [layOut, hide, ih]

theorem names_hide (pieces : List Piece) :
    (slots (pieces.map hide)).map BoundValue.name = (slots pieces).map BoundValue.name := by
  induction pieces with
  | nil => rfl
  | cons p rest ih => cases p <;> simp [slots, hide, ih]

end Piece

namespace Meaning

theorem hide_append (m n : Meaning) : (m.append n).hide = m.hide.append n.hide := by
  simp [append, hide]

theorem map_hide_inRow (r next : Except Error Meaning) :
    (inRow r next).map hide = inRow (r.map hide) (next.map hide) := by
  cases r with
  | error e => rfl
  | ok m =>
    cases next with
    | error e => rfl
    | ok n => exact congrArg Except.ok (hide_append m n)

theorem map_hide_taken (branch : NodeId) (r : Except Error Meaning) :
    (r.map (taken branch)).map hide = (r.map hide).map (taken branch) := by
  cases r <;> rfl

theorem map_hide_passedOver (branch : NodeId) (r : Except Error Meaning) :
    (r.map (passedOver branch)).map hide = (r.map hide).map (passedOver branch) := by
  cases r <;> rfl

/-- Whether a block is kept does not depend on values. -/
theorem map_hide_block (r : Except Error Meaning) : (block r).map hide = block (r.map hide) := by
  cases r with
  | error e => rfl
  | ok m =>
    -- a block reads whether it is live and what is absent, and neither is hidden
    show m.settled.map hide = m.hide.settled
    unfold settled
    rw [show m.hide.live = m.live from rfl, show m.hide.absent = m.absent from rfl]
    cases m.live with
    | false => rfl
    | true => cases m.absent <;> rfl

theorem cases_of_map_hide {r r' : Except Error Meaning} (h : r.map hide = r'.map hide) :
    (∃ e, r = .error e ∧ r' = .error e) ∨
      ∃ m m', r = .ok m ∧ r' = .ok m' ∧ m.hide = m'.hide := by
  cases r with
  | error e =>
    cases r' with
    | error e' =>
      obtain rfl : e = e' := Except.error.inj h
      exact .inl ⟨e, rfl, rfl⟩
    | ok m' => cases h
  | ok m =>
    cases r' with
    | error e' => cases h
    | ok m' => exact .inr ⟨m, m', rfl, rfl, Except.ok.inj h⟩

/-- Statements of meanings that differ in values only. -/
theorem statement_of_hide_eq {m n : Meaning} (h : m.hide = n.hide) (settings : Settings)
    (recorded : Bool) :
    (m.statement settings recorded).sql = (n.statement settings recorded).sql ∧
      (m.statement settings recorded).binds.map BoundValue.name =
        (n.statement settings recorded).binds.map BoundValue.name := by
  have hpieces : m.pieces.map Piece.hide = n.pieces.map Piece.hide := congrArg Meaning.pieces h
  constructor
  · simp only [statement]
    rw [← Piece.layOut_hide _ _ m.pieces, hpieces, Piece.layOut_hide]
  · show (Piece.slots m.pieces).map _ = (Piece.slots n.pieces).map _
    rw [← Piece.names_hide m.pieces, hpieces, Piece.names_hide]

end Meaning

/-! ## Lookups that cannot be told apart -/

def Value.itemCount? : Value → Option Nat
  | .list items => some items.length
  | _ => none

/-- Two readings of a variable: both lead to values that are `alike`, or to nothing, or both fail
with the same message. -/
def SameReading (alike : Value → Value → Prop) :
    Except PathFault (Option Value) → Except PathFault (Option Value) → Prop
  | .ok (some v), .ok (some w) => alike v w
  | .ok none, .ok none => True
  | .error fault, .error other => fault.message = other.message
  | _, _ => False

/-- What two lookups have in common at a token: a condition has the same outcome, a variable is
present, absent or failing under both, an embedded one has the same text, and a bound one has the
same shape after mapping, which is that of a list of so many items or of no list. -/
def TokenKind.Indistinct (evaluator : Evaluator) (mappers : List Mapper) (l l' : Lookup) :
    TokenKind → Prop
  | .ifThen condition | .elseIf condition =>
    evaluator.evaluate condition l = evaluator.evaluate condition l'
  | .bind name _ =>
    SameReading (fun v w =>
      (Mapper.bindAll mappers v).itemCount? = (Mapper.bindAll mappers w).itemCount?)
      (l.resolve? name) (l'.resolve? name)
  | .embedded name quoted =>
    SameReading (fun v w =>
      Mapper.literalAll mappers v quoted = Mapper.literalAll mappers w quoted)
      (l.resolve? name) (l'.resolve? name)
  | _ => True

namespace Piece

theorem map_hide_intersperse (sep : Piece) (pieces : List Piece) :
    (pieces.intersperse sep).map hide = (pieces.map hide).intersperse sep.hide := by
  induction pieces with
  | nil => rfl
  | cons p rest ih =>
    cases rest with
    | nil => rfl
    | cons q rest =>
      rw [List.intersperse_cons_cons, List.map_cons, List.map_cons, ih, List.map_cons,
        List.map_cons, List.map_cons, List.intersperse_cons_cons]

/-- The pieces of a list, values hidden, depend on how many items there are. -/
theorem map_hide_ofMapped_list (mappers : List Mapper) (name : String) (items : List Value) :
    (ofMapped mappers name (.list items)).map hide =
      if items.length = 0 then [text "NULL"]
      else (List.replicate items.length (slot ⟨name, .null⟩)).intersperse (text ", ") := by
  cases items with
  | nil => rfl
  | cons v rest =>
    have hslots : ((v :: rest).map fun u => slot ⟨name, Mapper.firstBind mappers u⟩).map hide =
        List.replicate (v :: rest).length (slot ⟨name, .null⟩) := by
      rw [List.map_map]
      show (v :: rest).map (fun _ => slot ⟨name, .null⟩) = _
      exact List.map_const'
    rw [if_neg (by simp), ← hslots]
    exact map_hide_intersperse ..

theorem map_hide_ofMapped {v w : Value} (h : v.itemCount? = w.itemCount?) (mappers : List Mapper)
    (name : String) :
    (ofMapped mappers name v).map hide = (ofMapped mappers name w).map hide := by
  -- a list has the shape of a list only, and all other values have one shape
  cases v with
  | list items =>
    cases w with
    | list others =>
      have hlength : items.length = others.length := Option.some.inj h
      rw [map_hide_ofMapped_list, map_hide_ofMapped_list, hlength]
    | _ => cases h
  | _ =>
    cases w with
    | list others => cases h
    | _ => rfl

theorem map_hide_ofBind {mappers : List Mapper} {v w : Value}
    (h : (Mapper.bindAll mappers v).itemCount? = (Mapper.bindAll mappers w).itemCount?)
    (name : String) (paren : Bool) :
    (ofBind mappers name paren v).map hide = (ofBind mappers name paren w).map hide := by
  rw [Mapper.bindAll_eq_firstBind, Mapper.bindAll_eq_firstBind] at h
  have hmapped := map_hide_ofMapped h mappers name
  cases paren with
  | false => exact hmapped
  | true => simp only [ofBind, if_true, List.map_cons, List.map_append, hmapped]

end Piece

/-- A variable that is read alike has the same meaning, values hidden. -/
theorem Surroundings.map_hide_resolved (s s' : Surroundings) {alike : Value → Value → Prop}
    {name : String} {pieces : Value → List Piece}
    (h : SameReading alike (s.lookup.resolve? name) (s'.lookup.resolve? name))
    (hpieces : ∀ v w, alike v w → (pieces v).map Piece.hide = (pieces w).map Piece.hide)
    (optional : Bool) :
    (s.resolved optional name pieces).map Meaning.hide =
      (s'.resolved optional name pieces).map Meaning.hide := by
  rw [Lookup.resolve?_eq_given, Lookup.resolve?_eq_given] at h
  unfold SameReading at h
  split at h
  · next v w hv hw =>
    have hvw := hpieces v w h
    simp only [resolved, hv, hw, Except.map, Meaning.hide, hvw]
  · next hv hw => simp only [resolved, hv, hw]
  · next fault other hv hw => simp only [resolved, hv, hw, h]
  · cases h

theorem Surroundings.map_hide_choose (s s' : Surroundings) {condition : String}
    (h : s.evaluator.evaluate condition s.lookup = s'.evaluator.evaluate condition s'.lookup)
    {body body' rest rest' : Except Error Meaning} (id : NodeId)
    (hbody : body.map Meaning.hide = body'.map Meaning.hide)
    (hrest : rest.map Meaning.hide = rest'.map Meaning.hide) :
    (s.choose condition (body.map (.taken id)) (rest.map (.passedOver id))).map Meaning.hide =
      (s'.choose condition (body'.map (.taken id)) (rest'.map (.passedOver id))).map
        Meaning.hide := by
  have hholds : s.holds condition = s'.holds condition := by
    unfold holds
    rw [h]
  unfold choose
  rw [hholds]
  cases s'.holds condition with
  | error e => rfl
  | ok b =>
    cases b with
    | true =>
      show (body.map (Meaning.taken id)).map Meaning.hide = _
      rw [Meaning.map_hide_taken, hbody, ← Meaning.map_hide_taken]
    | false =>
      show (rest.map (Meaning.passedOver id)).map Meaning.hide = _
      rw [Meaning.map_hide_passedOver, hrest, ← Meaning.map_hide_passedOver]

/-! ## Meanings under both -/

/-- Two lookups that cannot be told apart at any mark of a row. -/
def IndistinctAt (evaluator : Evaluator) (mappers : List Mapper) (l l' : Lookup)
    (marks : List Mark) : Prop :=
  ∀ mark ∈ marks, mark.kind.Indistinct evaluator mappers l l'

section

variable {evaluator : Evaluator} {mappers : List Mapper} {l l' : Lookup}

namespace IndistinctAt

variable {mark : Mark} {marks more : List Mark}

theorem head (h : IndistinctAt evaluator mappers l l' (mark :: marks)) :
    mark.kind.Indistinct evaluator mappers l l' :=
  h mark List.mem_cons_self

theorem left (h : IndistinctAt evaluator mappers l l' (marks ++ more)) :
    IndistinctAt evaluator mappers l l' marks := by
  intro inner hinner
  exact h inner (List.mem_append_left more hinner)

theorem right (h : IndistinctAt evaluator mappers l l' (marks ++ more)) :
    IndistinctAt evaluator mappers l l' more := by
  intro inner hinner
  exact h inner (List.mem_append_right marks hinner)

theorem tail (h : IndistinctAt evaluator mappers l l' (mark :: marks)) :
    IndistinctAt evaluator mappers l l' marks := by
  intro inner hinner
  exact h inner (List.mem_cons_of_mem mark hinner)

end IndistinctAt

mutual

/-- Lookups that cannot be told apart at the marks of a node give it the same meaning, values
hidden. -/
theorem Node.hide_meaning (optional : Bool) :
    ∀ (node : Node) (start : NodeId), IndistinctAt evaluator mappers l l' node.marks →
      (node.meaning ⟨l, evaluator, mappers⟩ optional start).map Meaning.hide =
        (node.meaning ⟨l', evaluator, mappers⟩ optional start).map Meaning.hide
  | .text content, start, _ => rfl
  | .bind name paren, start, h => by
    apply Surroundings.map_hide_resolved ⟨l, evaluator, mappers⟩ ⟨l', evaluator, mappers⟩ h.head
    intro v w hvw
    exact Piece.map_hide_ofBind hvw name paren
  | .embedded name quoted, start, h => by
    apply Surroundings.map_hide_resolved ⟨l, evaluator, mappers⟩ ⟨l', evaluator, mappers⟩ h.head
    intro v w hvw
    rw [Mapper.literalAll_eq_firstLiteral, Mapper.literalAll_eq_firstLiteral] at hvw
    exact congrArg (fun literal => [Piece.text literal]) hvw
  | .chain condition position body rest, start, h => by
    have hbody := Node.hide_meaningAll optional body start h.tail.left
    have hrest := Chain.hide_meaning optional rest (start + Node.countAll body + 1) h.tail.right
    exact Surroundings.map_hide_choose ⟨l, evaluator, mappers⟩ ⟨l', evaluator, mappers⟩ h.head
      (start + Node.countAll body) hbody hrest
  | .block body, start, h => by
    have hbody := Node.hide_meaningAll true body start h.tail.left
    rw [Node.meaning, Node.meaning, Meaning.map_hide_block, hbody, ← Meaning.map_hide_block]

theorem Chain.hide_meaning (optional : Bool) :
    ∀ (chain : Chain) (start : NodeId), IndistinctAt evaluator mappers l l' chain.marks →
      (chain.meaning ⟨l, evaluator, mappers⟩ optional start).map Meaning.hide =
        (chain.meaning ⟨l', evaluator, mappers⟩ optional start).map Meaning.hide
  | .done, start, _ => rfl
  | .elseIf condition position body rest, start, h => by
    have hbody := Node.hide_meaningAll optional body start h.tail.left
    have hrest := Chain.hide_meaning optional rest (start + Node.countAll body + 1) h.tail.right
    exact Surroundings.map_hide_choose ⟨l, evaluator, mappers⟩ ⟨l', evaluator, mappers⟩ h.head
      (start + Node.countAll body) hbody hrest
  | .otherwise position body, start, h => by
    have hbody := Node.hide_meaningAll optional body start h.tail.left
    rw [Chain.meaning, Chain.meaning, Meaning.map_hide_taken, hbody, ← Meaning.map_hide_taken]

theorem Node.hide_meaningAll (optional : Bool) :
    ∀ (nodes : List Node) (start : NodeId),
      IndistinctAt evaluator mappers l l' (Node.marksAll nodes) →
      (Node.meaningAll ⟨l, evaluator, mappers⟩ optional start nodes).map Meaning.hide =
        (Node.meaningAll ⟨l', evaluator, mappers⟩ optional start nodes).map Meaning.hide
  | [], start, _ => rfl
  | node :: rest, start, h => by
    have hnode := Node.hide_meaning optional node start h.left
    have hrest := Node.hide_meaningAll optional rest (start + node.count) h.right
    rw [Node.meaningAll, Node.meaningAll, Meaning.map_hide_inRow, hnode, hrest,
      ← Meaning.map_hide_inRow]

end

end

/-! ## Statements -/

namespace Renderer

/-- Two lookups that a template cannot tell apart but by the values that it binds: they have at each
token of its source in common what `TokenKind.Indistinct` says. -/
def Indistinct (r : Renderer) (t : Template) (l l' : Lookup) : Prop :=
  ∀ token ∈ (Token.scan t.source).tokens, token.kind.Indistinct r.evaluator r.mappers l l'

/-- Under two lookups that differ at most in the values that are bound, a template fails with the
same error, or it yields the same text and the same names of bind values. -/
theorem transform_indistinct {r : Renderer} {t : Template} {l l' : Lookup}
    (h : r.Indistinct t l l') :
    (∃ e, r.transform t l = .error e ∧ r.transform t l' = .error e) ∨
    ∃ st st', r.transform t l = .ok st ∧ r.transform t l' = .ok st' ∧
      st.sql = st'.sql ∧ st.binds.map BoundValue.name = st'.binds.map BoundValue.name := by
  have hmarks : IndistinctAt r.evaluator r.mappers l l' t.tree.marks := by
    intro mark hmark
    rw [t.marks_eq] at hmark
    obtain ⟨token, htoken, rfl⟩ := List.mem_map.1 hmark
    exact h token htoken
  have hhide : (t.tree.meaning ⟨l, r.evaluator, r.mappers⟩).map Meaning.hide =
      (t.tree.meaning ⟨l', r.evaluator, r.mappers⟩).map Meaning.hide :=
    Node.hide_meaningAll false t.tree.nodes 0 hmarks
  have hl := r.result_eq r.settings.coverage (t.name.getD "") t.tree l
  have hl' := r.result_eq r.settings.coverage (t.name.getD "") t.tree l'
  rcases Meaning.cases_of_map_hide hhide with ⟨e, he, he'⟩ | ⟨m, m', hm, hm', hvalues⟩
  · rw [he] at hl
    rw [he'] at hl'
    exact .inl ⟨e, hl, hl'⟩
  · rw [hm] at hl
    rw [hm'] at hl'
    exact .inr ⟨_, _, hl, hl', Meaning.statement_of_hide_eq hvalues r.settings _⟩

/-- A template with variables of each kind. -/
def keysQuery : Template where
  name := none
  source := "a = /*a*/1 AND b IN /*b*/(1)/*BEGIN*/ AND c = :c/*END*/ ORDER BY /*$key*/id"
  tree := ⟨[.text "a = ", .bind "a" false, .text " AND b IN ", .bind "b" true,
    .block [.text " AND c = ", .bind "c" false], .text " ORDER BY ", .embedded "key" false]⟩
  ofSource_source := by with_unfolding_all rfl

def keysParameters (a b : Value) : Parameters :=
  .ofList [("a", a), ("b", .list [b, b]), ("key", .string "id")]

/-- A value that would be a statement of its own is as harmless as a number. -/
theorem transform_indistinct_keysQuery :
    let l := (keysParameters (.int 1) .null).lookup
    let l' := (keysParameters (.string "' OR 1 = 1 --") (.bool true)).lookup
    stock.Indistinct keysQuery l l' ∧
    ((∃ e, stock.transform keysQuery l = .error e ∧ stock.transform keysQuery l' = .error e) ∨
    ∃ st st', stock.transform keysQuery l = .ok st ∧ stock.transform keysQuery l' = .ok st' ∧
      st.sql = st'.sql ∧ st.binds.map BoundValue.name = st'.binds.map BoundValue.name) := by
  intro l l'
  have h : stock.Indistinct keysQuery l l' := by
    intro token htoken
    have hkinds : (Token.scan keysQuery.source).tokens.map Token.kind =
        [.text "a = ", .bind "a" false, .text " AND b IN ", .bind "b" true, .beginBlock,
          .text " AND c = ", .bind "c" false, .endBlock, .text " ORDER BY ",
          .embedded "key" false] := by decide +kernel
    have hkind := List.mem_map_of_mem (f := Token.kind) htoken
    rw [hkinds] at hkind
    simp only [List.mem_cons, List.not_mem_nil, or_false] at hkind
    rcases hkind with hk | hk | hk | hk | hk | hk | hk | hk | hk | hk <;> rw [hk] <;> trivial
  exact ⟨h, transform_indistinct h⟩

end Renderer

end TwoWaySql
