import TwoWaySql.Proofs.Marks
import TwoWaySql.Proofs.Rendering

/-!
# Placeholders and their values

The statement of a template is made of some of its tokens, in the order of the source
(`Tree.drawn`): of texts, and of variables that stand for a value. Each of them puts its own pieces
there, and a slot of a piece is a placeholder and its value at once, so the two never come apart:
the text of the statement is a row of texts with a placeholder between each two, and the k-th
placeholder is that of the k-th bind value (`Renderer.placeholders_aligned`). How placeholders are
written changes nothing else.
-/

namespace TwoWaySql

/-! ## The texts between slots -/

namespace Piece

/-- The text in front of the first slot, and the texts behind each of the slots. -/
def texts : List Piece → String × List String
  | [] => ("", [])
  | text content :: rest => (content ++ (texts rest).1, (texts rest).2)
  | slot _ :: rest => ("", (texts rest).1 :: (texts rest).2)

end Piece

/-- A text and further texts in a row, with a mark between each two. The marks are numbered from
`index` up. -/
def weave (mark : Nat → String) : (index : Nat) → (first : String) → List String → String
  | _, first, [] => first
  | index, first, next :: rest => first ++ mark index ++ weave mark (index + 1) next rest

theorem weave_append (mark : Nat → String) (index : Nat) (before first : String)
    (rest : List String) :
    weave mark index (before ++ first) rest = before ++ weave mark index first rest := by
  cases rest <;> simp [weave, String.append_assoc]

theorem weave_congr {mark other : Nat → String} (index : Nat) (first : String)
    (rest : List String) (h : ∀ k, k < index + rest.length → mark k = other k) :
    weave mark index first rest = weave other index first rest := by
  induction rest generalizing index first with
  | nil => rfl
  | cons next rest ih =>
    have hrest : ∀ k, k < index + 1 + rest.length → mark k = other k := by
      intro k hk
      apply h
      rw [List.length_cons]
      omega
    rw [weave, weave, ih (index + 1) next hrest, h index (by rw [List.length_cons]; omega)]

namespace Piece

theorem length_texts (pieces : List Piece) : (texts pieces).2.length = (slots pieces).length := by
  induction pieces with
  | nil => rfl
  | cons p rest ih => cases p <;> simp [texts, slots, ih]

theorem layOut_eq_weave (style : Placeholder) (index : Nat) (pieces : List Piece) :
    layOut style index pieces = weave style.text index (texts pieces).1 (texts pieces).2 := by
  induction pieces generalizing index with
  | nil => rfl
  | cons p rest ih =>
    cases p with
    | text content => rw [layOut, ih, texts, weave_append]
    | slot bound => rw [layOut, ih, texts, weave, String.empty_append]

theorem slots_intersperse (name content : String) (f : Value → Value) (items : List Value) :
    slots ((items.map fun v => slot ⟨name, f v⟩).intersperse (text content)) =
      items.map fun v => ⟨name, f v⟩ := by
  induction items with
  | nil => rfl
  | cons v rest ih =>
    -- a comma stands behind an item only if there is a next one
    cases rest with
    | nil => rfl
    | cons w rest =>
      rw [List.map_cons, List.map_cons, List.intersperse_cons_cons]
      rw [List.map_cons] at ih
      simp only [slots, ih, List.map_cons]

end Piece

/-! ## What tokens put into a statement -/

/-- The values that a variable binds: those of its items if it is a list, and its own otherwise,
after mapping. -/
def BoundValue.ofVariable (mappers : List Mapper) (name : String) (v : Value) : List BoundValue :=
  match Mapper.firstBind mappers v with
  | .list items => items.map fun w => ⟨name, Mapper.firstBind mappers w⟩
  | w => [⟨name, w⟩]

theorem Piece.slots_ofBind (mappers : List Mapper) (name : String) (paren : Bool) (v : Value) :
    slots (ofBind mappers name paren v) = BoundValue.ofVariable mappers name v := by
  have hmapped (w : Value) : slots (ofMapped mappers name w) =
      match w with
      | .list items => items.map fun u => ⟨name, Mapper.firstBind mappers u⟩
      | w => [⟨name, w⟩] := by
    cases w with
    | list items =>
      cases items with
      | nil => rfl
      | cons u rest => exact slots_intersperse name ", " (Mapper.firstBind mappers) (u :: rest)
    | _ => rfl
  -- parentheses are text and hold no slot
  have hparen : slots (ofBind mappers name paren v) =
      slots (ofMapped mappers name (Mapper.firstBind mappers v)) := by
    cases paren <;> simp [ofBind, slots]
  rw [hparen, hmapped]
  rfl

namespace TokenKind

/-- Whether a token puts something into a statement: a text does, and so does a variable that stands
for a value. -/
def Stands (l : Lookup) : TokenKind → Prop
  | .text _ => True
  | .bind name _ | .embedded name _ => ∃ v, l.given name = .ok (some v)
  | _ => False

/-- What a token puts into a statement. -/
def pieces (mappers : List Mapper) (l : Lookup) : TokenKind → List Piece
  | .text content => [.text content]
  | .bind name paren =>
    match l.given name with
    | .ok (some v) => Piece.ofBind mappers name paren v
    | _ => []
  | .embedded name quoted =>
    match l.given name with
    | .ok (some v) => Piece.ofEmbedded mappers quoted v
    | _ => []
  | _ => []

/-- The values that a token binds. -/
def bound (mappers : List Mapper) (l : Lookup) : TokenKind → List BoundValue
  | .bind name _ =>
    match l.given name with
    | .ok (some v) => BoundValue.ofVariable mappers name v
    | _ => []
  | _ => []

theorem slots_pieces (mappers : List Mapper) (l : Lookup) (kind : TokenKind) :
    Piece.slots (kind.pieces mappers l) = kind.bound mappers l := by
  cases kind with
  | bind name paren =>
    simp only [pieces, bound]
    split
    · exact Piece.slots_ofBind mappers name paren _
    · rfl
  | embedded name quoted =>
    simp only [pieces, bound]
    split <;> rfl
  | _ => rfl

theorem slots_flatMap_pieces (mappers : List Mapper) (l : Lookup) (tokens : List Token) :
    Piece.slots (tokens.flatMap fun token => token.kind.pieces mappers l) =
      tokens.flatMap fun token => token.kind.bound mappers l := by
  induction tokens with
  | nil => rfl
  | cons token rest ih =>
    rw [List.flatMap_cons, List.flatMap_cons, Piece.slots_append, slots_pieces, ih]

end TokenKind

/-! ## Pieces drawn from a row of marks -/

/-- The pieces are those of some of the marks, in their order. -/
def Drawn (s : Surroundings) (marks : List Mark) (pieces : List Piece) : Prop :=
  ∃ used : List Mark, used.Sublist marks ∧ (∀ mark ∈ used, mark.kind.Stands s.lookup) ∧
    pieces = used.flatMap fun mark => mark.kind.pieces s.mappers s.lookup

namespace Drawn

variable {s : Surroundings} {marks more : List Mark} {pieces : List Piece}

theorem nothing (marks : List Mark) : Drawn s marks [] :=
  ⟨[], List.nil_sublist marks, by simp, rfl⟩

theorem single (mark : Mark) (h : mark.kind.Stands s.lookup) :
    Drawn s [mark] (mark.kind.pieces s.mappers s.lookup) := by
  refine ⟨[mark], List.Sublist.refl _, ?_, ?_⟩
  · intro used hused
    rwa [List.mem_singleton.1 hused]
  · rw [List.flatMap_singleton]

theorem mono (h : Drawn s marks pieces) (hm : marks.Sublist more) : Drawn s more pieces := by
  obtain ⟨used, hu, hs, he⟩ := h
  exact ⟨used, hu.trans hm, hs, he⟩

theorem append {later : List Piece} (h : Drawn s marks pieces) (hl : Drawn s more later) :
    Drawn s (marks ++ more) (pieces ++ later) := by
  obtain ⟨used, hu, hs, rfl⟩ := h
  obtain ⟨usedLater, hul, hsl, rfl⟩ := hl
  refine ⟨used ++ usedLater, hu.append hul, ?_, by rw [List.flatMap_append]⟩
  intro mark hmark
  rcases List.mem_append.1 hmark with hmark | hmark
  · exact hs mark hmark
  · exact hsl mark hmark

/-- A branch is drawn from its own marks, and what follows it from the marks behind those. -/
theorem branch (mark : Mark) {condition : String} {id : NodeId} {body rest : Except Error Meaning}
    {m : Meaning}
    (h : s.choose condition (body.map (.taken id)) (rest.map (.passedOver id)) = .ok m)
    (hbody : ∀ n, body = .ok n → Drawn s marks n.pieces)
    (hrest : ∀ n, rest = .ok n → Drawn s more n.pieces) :
    Drawn s (mark :: (marks ++ more)) m.pieces := by
  rcases Surroundings.choose_ok h with h | h
  · obtain ⟨n, hn, rfl⟩ := Meaning.map_ok h
    refine (hbody n hn).mono ?_
    exact (List.sublist_append_left _ _).trans (List.sublist_cons_self _ _)
  · obtain ⟨n, hn, rfl⟩ := Meaning.map_ok h
    refine (hrest n hn).mono ?_
    exact (List.sublist_append_right _ _).trans (List.sublist_cons_self _ _)

end Drawn

mutual

/-- The pieces of a node are drawn from its marks. -/
theorem Node.drawn (s : Surroundings) (optional : Bool) :
    ∀ (node : Node) (start : NodeId) (m : Meaning), node.meaning s optional start = .ok m →
      Drawn s node.marks m.pieces
  | .text content, start, m, h => by
    obtain rfl : Meaning.ofPieces [.text content] = m := Except.ok.inj h
    exact .single ⟨.text content, none⟩ trivial
  | .bind name paren, start, m, h => by
    obtain ⟨v, hv, rfl⟩ | ⟨-, -, rfl⟩ := Surroundings.resolved_ok h
    · have hs : Drawn s [_] _ := .single ⟨.bind name paren, none⟩ ⟨v, hv⟩
      simpa only [Node.marks, TokenKind.pieces, hv] using hs
    · exact .nothing _
  | .embedded name quoted, start, m, h => by
    obtain ⟨v, hv, rfl⟩ | ⟨-, -, rfl⟩ := Surroundings.resolved_ok h
    · have hs : Drawn s [_] _ := .single ⟨.embedded name quoted, none⟩ ⟨v, hv⟩
      simpa only [Node.marks, TokenKind.pieces, hv] using hs
    · exact .nothing _
  | .chain condition position body rest, start, m, h => by
    exact .branch _ h (Node.drawnAll s optional body start) (Chain.drawn s optional rest _)
  | .block body, start, m, h => by
    obtain ⟨n, hn, hm | hm⟩ := Meaning.block_ok h
    · rw [hm]
      refine (Node.drawnAll s true body start n hn).mono ?_
      exact (List.sublist_append_left _ _).trans (List.sublist_cons_self _ _)
    · rw [hm]
      exact .nothing _

theorem Chain.drawn (s : Surroundings) (optional : Bool) :
    ∀ (chain : Chain) (start : NodeId) (m : Meaning), chain.meaning s optional start = .ok m →
      Drawn s chain.marks m.pieces
  | .done, start, m, h => by
    obtain rfl : Meaning.ofPieces [] = m := Except.ok.inj h
    exact .nothing _
  | .elseIf condition position body rest, start, m, h => by
    exact .branch _ h (Node.drawnAll s optional body start) (Chain.drawn s optional rest _)
  | .otherwise position body, start, m, h => by
    obtain ⟨n, hn, rfl⟩ := Meaning.map_ok h
    refine (Node.drawnAll s optional body start n hn).mono ?_
    exact (List.sublist_append_left _ _).trans (List.sublist_cons_self _ _)

theorem Node.drawnAll (s : Surroundings) (optional : Bool) :
    ∀ (nodes : List Node) (start : NodeId) (m : Meaning),
      Node.meaningAll s optional start nodes = .ok m → Drawn s (Node.marksAll nodes) m.pieces
  | [], start, m, h => by
    obtain rfl : Meaning.ofPieces [] = m := Except.ok.inj h
    exact .nothing _
  | node :: rest, start, m, h => by
    obtain ⟨x, y, hx, hy, rfl⟩ := Meaning.inRow_ok h
    exact (Node.drawn s optional node start x hx).append
      (Node.drawnAll s optional rest _ y hy)

end

/-! ## Statements -/

theorem Placeholder.numbered_text {index : Nat} (h : index < maxNumber) :
    numbered.text index = "$" ++ toString (index + 1) := by
  have hmin : min ((index : Int) + 1) maxNumber = (index + 1 : Nat) := by omega
  show "$" ++ Decimal.whole (min ((index : Int) + 1) maxNumber) = _
  rw [hmin]
  rfl

namespace Renderer

/-- The renderer with the given placeholders and without a cleanup of clauses. -/
def withPlaceholder (r : Renderer) (style : Placeholder) : Renderer :=
  { r with settings := { r.settings with placeholder := style, clauseCleanup := false } }

/-- Without a cleanup, transforming a template yields the pieces that it means, woven with
placeholders. -/
theorem transform_withPlaceholder (r : Renderer) (style : Placeholder) (t : Template) (l : Lookup) :
    (r.withPlaceholder style).transform t l =
      (t.tree.meaning ⟨l, r.evaluator, r.mappers⟩).map fun m =>
        { sql := weave style.text 0 (Piece.texts m.pieces).1 (Piece.texts m.pieces).2
          binds := Piece.slots m.pieces
          coverage := if r.settings.coverage then some m.coverage else none } := by
  have h := (r.withPlaceholder style).result_eq r.settings.coverage (t.name.getD "") t.tree l
  refine h.trans ?_
  congr 1
  funext m
  simp [Meaning.statement, withPlaceholder, Piece.layOut_eq_weave]

/-- A statement is a row of texts with one placeholder between each two, the same texts for both
ways of writing placeholders, and as many placeholders as bind values. Texts and values are those of
some tokens of the template, in the order of the source: of its texts, and of variables that stand
for a value, where a bound variable gives one value, or one for each item of a list. -/
theorem placeholders_aligned {r : Renderer} {style : Placeholder} {t : Template} {l : Lookup}
    {st : Statement} (h : (r.withPlaceholder style).transform t l = .ok st) :
    ∃ (used : List Token) (first : String) (rest : List String),
      used.Sublist (Token.scan t.source).tokens ∧
      (∀ token ∈ used, token.kind.Stands l) ∧
      (first, rest) = Piece.texts (used.flatMap fun token => token.kind.pieces r.mappers l) ∧
      st.binds = used.flatMap (fun token => token.kind.bound r.mappers l) ∧
      rest.length = st.binds.length ∧
      (r.withPlaceholder .question).transform t l =
        .ok { st with sql := weave (fun _ => "?") 0 first rest } ∧
      (r.withPlaceholder .numbered).transform t l =
        .ok { st with sql := weave Placeholder.numbered.text 0 first rest } ∧
      (st.binds.length ≤ Placeholder.maxNumber →
        weave Placeholder.numbered.text 0 first rest =
          weave (fun index => "$" ++ toString (index + 1)) 0 first rest) := by
  rw [transform_withPlaceholder] at h
  cases hm : t.tree.meaning ⟨l, r.evaluator, r.mappers⟩ with
  | error e =>
    rw [hm] at h
    cases h
  | ok m =>
    rw [hm] at h
    obtain rfl := (Except.ok.inj h).symm
    obtain ⟨marks, hsub, hstands, hpieces⟩ :=
      Node.drawnAll ⟨l, r.evaluator, r.mappers⟩ false t.tree.nodes 0 m hm
    -- The marks of the tree are those of the tokens, so the used ones come from tokens.
    rw [show Node.marksAll t.tree.nodes = _ from t.marks_eq] at hsub
    obtain ⟨used, hused, rfl⟩ := List.sublist_map_iff.1 hsub
    have hp : m.pieces = used.flatMap fun token => token.kind.pieces r.mappers l := by
      rw [hpieces, List.flatMap_map]
      rfl
    refine ⟨used, (Piece.texts m.pieces).1, (Piece.texts m.pieces).2, hused, ?_, ?_, ?_, ?_, ?_,
      ?_, ?_⟩
    · intro token htoken
      exact hstands token.mark (List.mem_map_of_mem htoken)
    · rw [hp]
    · show Piece.slots m.pieces = _
      rw [hp, TokenKind.slots_flatMap_pieces]
    · exact Piece.length_texts m.pieces
    · rw [transform_withPlaceholder, hm]
      rfl
    · rw [transform_withPlaceholder, hm]
      rfl
    · intro hle
      apply weave_congr
      intro k hk
      apply Placeholder.numbered_text
      rw [Nat.zero_add, Piece.length_texts] at hk
      exact Nat.lt_of_lt_of_le hk hle

/-- A list in a block that is kept, a block that is dropped and a branch that is not entered. -/
def listInBlock : Template where
  name := none
  source := "a = /*x*/1/*BEGIN*/ AND b IN /*ids*/(1)/*END*//*BEGIN*/ AND c = :gone/*END*/" ++
    "/*IF flag*/ AND d = :x/*END*/"
  tree := ⟨[.text "a = ", .bind "x" false, .block [.text " AND b IN ", .bind "ids" true],
    .block [.text " AND c = ", .bind "gone" false],
    .chain "flag" ⟨76, 1, 77⟩ [.text " AND d = ", .bind "x" false] .done]⟩
  ofSource_source := by with_unfolding_all rfl

def listInBlockParameters : Parameters :=
  .ofList [("x", .bool true), ("ids", .list [.bool false, .int 3, .null]), ("flag", .bool false)]

/-- Booleans are bound as integers, and null as a dash. -/
def mappingRenderer : Renderer := { stock with mappers := [.booleanAsInteger, dashes] }

def listInBlockStatement : Statement where
  sql := "a = ? AND b IN (?, ?, ?)"
  binds := [⟨"x", .int 1⟩, ⟨"ids", .int 0⟩, ⟨"ids", .int 3⟩, ⟨"ids", .string "-"⟩]
  coverage := none

theorem placeholders_aligned_listInBlock :
    (mappingRenderer.withPlaceholder .question).transform listInBlock listInBlockParameters.lookup =
      .ok listInBlockStatement ∧
    ∃ (used : List Token) (first : String) (rest : List String),
      used.Sublist (Token.scan listInBlock.source).tokens ∧
      listInBlockStatement.binds = used.flatMap (fun token =>
        token.kind.bound [.booleanAsInteger, dashes] listInBlockParameters.lookup) ∧
      rest.length = 4 ∧
      (mappingRenderer.withPlaceholder .numbered).transform listInBlock
          listInBlockParameters.lookup =
        .ok { listInBlockStatement with
          sql := weave (fun index => "$" ++ toString (index + 1)) 0 first rest } := by
  have h : (mappingRenderer.withPlaceholder .question).transform listInBlock
      listInBlockParameters.lookup = .ok listInBlockStatement := rfl
  obtain ⟨used, first, rest, hused, -, -, hbinds, hlength, -, hnumbered, hdigits⟩ :=
    placeholders_aligned h
  refine ⟨h, used, first, rest, hused, hbinds, hlength, ?_⟩
  rw [hnumbered, hdigits (by decide)]

end Renderer

end TwoWaySql
