import TwoWaySql.Proofs.Locations
import TwoWaySql.Scanner

/-!
# Scanners make progress

A scanner finds its place anew for each step, in bytes. This file

1. shows that the place is always behind a whole part of the source (`Scanner.StandsBehind`), so
   that what is cut off behind it is the rest, and says once what a step does there
   (`Scanner.step_cases`);
2. shows that a step moves on or fails, unless the source is at its end (`Scanner.offset_lt_step`);
3. reads off a scanner what it will yield (`Scanner.remaining`) and shows that a step changes
   nothing about it (`Scanner.keeps_step`), so that a call returns the first of it and leaves
   the others (`Scanner.next_eq`): the calls get what is read in one go, and then nothing more;
4. concludes that scanning makes progress and stops for good (`Scanner.stops`).
-/

namespace TwoWaySql

open Token (Nesting Pending)

/-! ## What is passed -/

theorem Dummy.passed_prefix (s : List Char) : passed s <+: s := by
  unfold passed
  split
  · have hsuffix := List.dropWhile_suffix (· != '\'') (l := s.reverse)
    simpa using List.reverse_prefix.2 hsuffix
  · exact List.prefix_refl s

theorem Lexeme.passed_prefix (c : Char) (s : List Char) : passed c s <+: c :: s := by
  unfold passed
  split
  · next s =>
    split
    · exact List.nil_prefix
    · next content rest hcut =>
      have hsource : '/' :: '*' :: s = Text.comment content ++ rest := by
        rw [Text.comment_append, Text.append_of_cutComment? hcut]
      rw [hsource]
      dsimp only
      split
      · exact List.prefix_append (Text.comment content) rest
      · exact (List.prefix_append_right_inj (Text.comment content)).2 (Dummy.passed_prefix rest)
  · exact List.prefix_append [c] s

namespace Scanner

variable {source : String} {s s' : Scanner} {front rest : List Char}

/-- The scanner stands behind the part `front` of the source, in front of the rest. -/
structure StandsBehind (s : Scanner) (source : String) (front rest : List Char) : Prop where
  source_eq : s.source = source
  split : source.toList = front ++ rest
  place : s.position = Position.start.after front

namespace StandsBehind

theorem rest_eq (h : s.StandsBehind source front rest) : s.rest = rest := by
  rw [Scanner.rest, h.source_eq, h.split, h.place, Position.offset_start,
    Text.behindBytes_append]

theorem marks (h : s.StandsBehind source front rest) : s.position.Marks front source := by
  rw [h.place]
  exact Position.marks_after h.split

theorem bytes (h : s.StandsBehind source front rest) :
    source.utf8ByteSize = s.position.offset + (String.ofList rest).utf8ByteSize := by
  rw [h.place, Position.offset_start, ← String.utf8ByteSize_append, ← String.ofList_append,
    ← h.split, String.ofList_toList]

theorem atEnd_iff (h : s.StandsBehind source front rest) : s.atEnd = true ↔ rest = [] := by
  have hbytes := h.bytes
  rw [atEnd, decide_eq_true_eq, h.source_eq]
  constructor
  · intro hend
    have hzero : (String.ofList rest).utf8ByteSize = 0 := by omega
    rw [String.utf8ByteSize_eq_zero_iff] at hzero
    rw [← String.toList_ofList (l := rest), hzero, String.toList_empty]
  · rintro rfl
    rw [String.ofList_nil, String.utf8ByteSize_empty] at hbytes
    omega

end StandsBehind

theorem standsBehind_ofSource (source : String) :
    (ofSource source).StandsBehind source [] source.toList :=
  ⟨rfl, rfl, rfl⟩

/-! ## Steps -/

/-- What a step does behind a part of the source. -/
theorem step_cases (h : s.StandsBehind source front rest) :
    (rest = [] ∧ s.step = s.finish) ∨
      ∃ c tail, rest = c :: tail ∧
        ((∃ e, Lexeme.read s.position c tail = .error e ∧
            s.step = ⟨{ s with position := s.position.after (Lexeme.passed c tail) }, some e⟩) ∨
          ∃ r, Lexeme.read s.position c tail = .ok r ∧ s.step = s.pass c r) := by
  have hend := h.atEnd_iff
  have hrest := h.rest_eq
  cases rest with
  | nil =>
    refine .inl ⟨rfl, ?_⟩
    rw [step, if_pos (hend.2 rfl)]
  | cons c tail =>
    have hgoes : ¬ s.atEnd = true := fun he => List.cons_ne_nil c tail (hend.1 he)
    refine .inr ⟨c, tail, rfl, ?_⟩
    rw [step, if_neg hgoes, hrest]
    dsimp only
    cases Lexeme.read s.position c tail with
    | error e => exact .inl ⟨e, rfl, rfl⟩
    | ok r => exact .inr ⟨r, rfl, rfl⟩

/-- What passing a lexeme does: text is kept, any other lexeme becomes a token or is refused. -/
theorem pass_cases (s : Scanner) (c : Char) (r : Lexeme.Reading) :
    (∃ decoded, r.lexeme = .text decoded ∧
        s.pass c r = ⟨{ s with
          position := s.position.after (c :: r.taken)
          pending := s.pending.push s.position decoded }, none⟩) ∨
      (∀ decoded, r.lexeme ≠ .text decoded) ∧
        ((∃ e, Token.accept s.nesting s.position r.lexeme = .error e ∧
            s.pass c r = ⟨{ s with position := s.position.after (c :: r.taken) }, some e⟩) ∨
          ∃ kind nesting, Token.accept s.nesting s.position r.lexeme = .ok (kind, nesting) ∧
            s.pass c r = ⟨{ s with
              position := s.position.after (c :: r.taken)
              nesting
              pending := .none
              queue := s.queue ++ (s.pending.tokens ++ [⟨kind, s.position⟩]) }, none⟩) := by
  unfold pass
  dsimp only
  split
  · next decoded htext => exact .inl ⟨decoded, htext, rfl⟩
  · next hnot =>
    refine .inr ⟨hnot, ?_⟩
    cases Token.accept s.nesting s.position r.lexeme with
    | error e => exact .inl ⟨e, rfl, rfl⟩
    | ok accepted => exact .inr ⟨accepted.1, accepted.2, rfl, rfl⟩

theorem pass_place (s : Scanner) (c : Char) (r : Lexeme.Reading) :
    (s.pass c r).scanner.source = s.source ∧
      (s.pass c r).scanner.position = s.position.after (c :: r.taken) := by
  rcases pass_cases s c r with ⟨_, -, h⟩ | ⟨-, ⟨_, -, h⟩ | ⟨_, _, -, h⟩⟩ <;>
    exact h ▸ ⟨rfl, rfl⟩

namespace StandsBehind

/-- The scanner has moved over a part of the rest. -/
theorem moved (h : s.StandsBehind source front rest) {part behind : List Char}
    (hpart : rest = part ++ behind) (hsource : s'.source = s.source)
    (hplace : s'.position = s.position.after part) :
    s'.StandsBehind source (front ++ part) behind where
  source_eq := hsource.trans h.source_eq
  split := by rw [h.split, hpart, List.append_assoc]
  place := by rw [hplace, h.place, Position.after_append]

theorem pass {c : Char} {tail : List Char} {r : Lexeme.Reading}
    (h : s.StandsBehind source front (c :: tail)) (hread : Lexeme.read s.position c tail = .ok r) :
    (s.pass c r).scanner.StandsBehind source (front ++ c :: r.taken) r.rest := by
  obtain ⟨hsource, hplace⟩ := pass_place s c r
  refine h.moved ?_ hsource hplace
  rw [List.cons_append, Lexeme.append_of_read hread]

theorem step (h : s.StandsBehind source front rest) :
    ∃ front rest, s.step.scanner.StandsBehind source front rest := by
  rcases step_cases h with ⟨rfl, hstep⟩ | ⟨c, tail, rfl, ⟨e, -, hstep⟩ | ⟨r, hread, hstep⟩⟩
  · rw [hstep]
    exact ⟨_, _, h.moved (List.nil_append []).symm rfl rfl⟩
  · obtain ⟨behind, hpassed⟩ := Lexeme.passed_prefix c tail
    rw [hstep]
    exact ⟨_, _, h.moved hpassed.symm rfl rfl⟩
  · rw [hstep]
    exact ⟨_, _, h.pass hread⟩

end StandsBehind

/-- In front of more of the source a step moves on or fails. -/
theorem offset_lt_step (h : s.StandsBehind source front rest) (hend : s.atEnd = false)
    (hsteps : s.step.failure = none) : s.position.offset < s.step.scanner.position.offset := by
  rcases step_cases h with ⟨rfl, -⟩ | ⟨c, tail, rfl, ⟨e, -, hstep⟩ | ⟨r, -, hstep⟩⟩
  · rw [h.atEnd_iff.2 rfl] at hend
    cases hend
  · rw [hstep] at hsteps
    cases hsteps
  · rw [hstep, (pass_place s c r).2]
    exact Position.offset_lt_after s.position (List.cons_ne_nil c r.taken)

/-! ## What a scanner will yield -/

/-- What a scanner will yield: the tokens that wait, and what is read from where it stands. -/
def remaining (s : Scanner) : List (Except Error Token) :=
  s.queue.map .ok ++
    if s.finished then [] else (Token.scanFrom s.nesting s.pending s.position s.rest).items

theorem remaining_finished (s : Scanner) (hfinished : s.finished = true) :
    s.remaining = s.queue.map .ok := by
  rw [remaining, if_pos hfinished, List.append_nil]

/-- What a scanner in front of the rest will yield, while there are more steps. -/
theorem StandsBehind.remaining_eq (h : s.StandsBehind source front rest)
    (hgoes : s.finished = false) :
    s.remaining = s.queue.map .ok ++
      (Token.scanFrom s.nesting s.pending s.position rest).items := by
  rw [remaining, if_neg (Bool.eq_false_iff.1 hgoes), h.rest_eq]

theorem items_prepend (tokens : List Token) (scan : Scan) :
    (scan.prepend tokens).items = tokens.map .ok ++ scan.items := by
  rw [Scan.items, Scan.prepend, List.map_append, List.append_assoc]
  rfl

/-- What a step does to the items that were still to come: they still are, or it fails with the only
one. -/
def Stepped.Keeps (stepped : Stepped) (items : List (Except Error Token)) : Prop :=
  match stepped.failure with
  | none => stepped.scanner.remaining = items
  | some e => items = [.error e]

theorem keeps_finish (hqueue : s.queue = []) :
    s.finish.Keeps (Token.scanFrom s.nesting s.pending s.position []).items := by
  cases hnesting : s.nesting with
  | nil =>
    have hnone : s.finish.failure = none := by
      rw [finish, hnesting, List.head?_nil, Option.map_none]
    have hdone := remaining_finished s.finish.scanner rfl
    rw [Stepped.Keeps, hnone, Token.scanFrom, hdone, finish, hqueue]
    exact (List.append_nil _).symm
  | cons opened outer =>
    rw [Stepped.Keeps, finish, hnesting, Token.scanFrom]
    rfl

theorem keeps_pass {c : Char} {tail : List Char} {r : Lexeme.Reading}
    (h : s.StandsBehind source front (c :: tail)) (hqueue : s.queue = [])
    (hgoes : s.finished = false) (hread : Lexeme.read s.position c tail = .ok r) :
    (s.pass c r).Keeps (Token.scanFrom s.nesting s.pending s.position (c :: tail)).items := by
  have hbehind := h.pass hread
  rcases pass_cases s c r with ⟨decoded, htext, hpass⟩ | ⟨hnot, ⟨e, haccept, hpass⟩ |
    ⟨kind, nesting, haccept, hpass⟩⟩
  · rw [hpass] at hbehind ⊢
    obtain ⟨lexeme, taken, behind⟩ := r
    cases htext
    show remaining _ = _
    rw [hbehind.remaining_eq hgoes, Token.scanFrom_text hread, hqueue]
    rfl
  · rw [hpass, Token.scanFrom_refused hread haccept]
    rfl
  · rw [hpass] at hbehind ⊢
    show remaining _ = _
    rw [hbehind.remaining_eq hgoes, Token.scanFrom_accept hread hnot haccept, items_prepend, hqueue]
    rfl

/-- A step of a scanner for which no token waits changes nothing about what it will yield. -/
theorem keeps_step (h : s.StandsBehind source front rest) (hqueue : s.queue = [])
    (hgoes : s.finished = false) : s.step.Keeps s.remaining := by
  have hbefore := h.remaining_eq hgoes
  rw [hqueue, List.map_nil, List.nil_append] at hbefore
  rw [hbefore]
  rcases step_cases h with ⟨rfl, hstep⟩ | ⟨c, tail, rfl, ⟨e, hread, hstep⟩ | ⟨r, hread, hstep⟩⟩
  · rw [hstep]
    exact keeps_finish hqueue
  · rw [hstep, Token.scanFrom_error hread]
    rfl
  · rw [hstep]
    exact keeps_pass h hqueue hgoes hread

/-! ## Calls -/

/-- The scanners that come of a source: a token is handed out, a call makes a step where no token
waits, a step fails and ends the call, and a scanner starts anew. -/
inductive Reaches (source : String) : Scanner → Prop
  | start : Reaches source (ofSource source)
  | handOut {s : Scanner} {token : Token} {queue : List Token} (before : Reaches source s)
    (waits : s.queue = token :: queue) : Reaches source { s with queue }
  | step {s : Scanner} (before : Reaches source s) (waits : s.queue = [])
    (goes : s.finished = false) (steps : s.step.failure = none) : Reaches source s.step.scanner
  | fail {s : Scanner} {e : Error} (before : Reaches source s) (waits : s.queue = [])
    (goes : s.finished = false) (fails : s.step.failure = some e) :
    Reaches source s.step.scanner.stop
  | reset {s : Scanner} (before : Reaches source s) : Reaches source s.reset

/-- Wherever a scanner comes to, it stands behind a part of its source. -/
theorem Reaches.standsBehind (h : Reaches source s) :
    ∃ front rest, s.StandsBehind source front rest := by
  induction h with
  | start => exact ⟨_, _, standsBehind_ofSource source⟩
  | handOut _ waits ih =>
    obtain ⟨front, rest, hstands⟩ := ih
    exact ⟨front, rest, hstands.source_eq, hstands.split, hstands.place⟩
  | step _ waits goes steps ih =>
    obtain ⟨front, rest, hstands⟩ := ih
    exact hstands.step
  | fail _ waits goes fails ih =>
    obtain ⟨front, rest, hstands⟩ := ih
    obtain ⟨front, rest, hbehind⟩ := hstands.step
    exact ⟨front, rest, hbehind.source_eq, hbehind.split, hbehind.place⟩
  | reset _ ih =>
    obtain ⟨front, rest, hstands⟩ := ih
    rw [Scanner.reset, hstands.source_eq]
    exact ⟨_, _, standsBehind_ofSource source⟩

/-- A call in which a turn returns returns the same. -/
theorem next_of_turn {returned : Option (Except Error Token) × Scanner}
    (h : s.turn = .inl returned) : s.next = .some returned :=
  Part.eq_some_iff.2 (PFun.fix_stop (Part.mem_some_iff.2 h.symm))

theorem next_waits {token : Token} {queue : List Token} (hqueue : s.queue = token :: queue) :
    s.next = .some (some (.ok token), { s with queue }) :=
  next_of_turn (by rw [turn, hqueue])

theorem next_idle (hqueue : s.queue = []) (hfinished : s.finished = true) :
    s.next = .some (none, s) :=
  next_of_turn (by simp [turn, hqueue, hfinished])

theorem next_fail {e : Error} (hqueue : s.queue = []) (hgoes : s.finished = false)
    (hfails : s.step.failure = some e) :
    s.next = .some (some (.error e), s.step.scanner.stop) :=
  next_of_turn (by simp [turn, hqueue, hgoes, hfails])

theorem next_step (hqueue : s.queue = []) (hgoes : s.finished = false)
    (hsteps : s.step.failure = none) : s.next = s.step.scanner.next := by
  have hturn : s.turn = .inr s.step.scanner := by simp [turn, hqueue, hgoes, hsteps]
  exact PFun.fix_fwd_eq (Part.mem_some_iff.2 hturn.symm)

theorem remaining_waits {token : Token} {queue : List Token} (hqueue : s.queue = token :: queue) :
    s.remaining = .ok token :: { s with queue }.remaining := by
  rw [remaining, hqueue]
  rfl

/-- How many steps a scanner can still make, at most: one for each byte, and one at the end. -/
def budget (s : Scanner) : Nat :=
  if s.finished then 0 else s.source.utf8ByteSize - s.position.offset + 1

theorem budget_step (h : s.StandsBehind source front rest) (hgoes : s.finished = false)
    (hsteps : s.step.failure = none) : s.step.scanner.budget < s.budget := by
  rw [budget, budget, if_neg (Bool.eq_false_iff.1 hgoes)]
  cases hend : s.atEnd with
  | true =>
    rw [step, if_pos hend, finish, if_pos rfl]
    exact Nat.zero_lt_succ _
  | false =>
    -- the place behind the step is still one in the source, so the difference shrinks
    have hmoves := offset_lt_step h hend hsteps
    obtain ⟨front, rest, hbehind⟩ := h.step
    have hbytes := hbehind.bytes
    rw [hbehind.source_eq, h.source_eq]
    split <;> omega

/-- A call returns the first item of what the scanner will yield, and leaves the others. Where that
is no token, the scanner is finished behind it. -/
theorem next_eq (h : Reaches source s) :
    ∃ s', s.next = .some (s.remaining.head?, s') ∧ Reaches source s' ∧
      s'.remaining = s.remaining.tail ∧
      ((∀ token, s.remaining.head? ≠ some (.ok token)) → s'.queue = [] ∧ s'.finished = true) := by
  -- only a turn that makes a step without an item leads on, and it has fewer steps left
  induction hbudget : s.budget using Nat.strongRecOn generalizing s with
  | ind budget ih =>
    cases hqueue : s.queue with
    | cons token queue =>
      rw [remaining_waits hqueue]
      exact ⟨_, next_waits hqueue, .handOut h hqueue, rfl, fun hno => absurd rfl (hno token)⟩
    | nil =>
      obtain ⟨front, rest, hstands⟩ := h.standsBehind
      cases hgoes : s.finished with
      | true =>
        have hremaining : s.remaining = [] := by
          rw [remaining_finished s hgoes, hqueue, List.map_nil]
        rw [hremaining]
        exact ⟨s, next_idle hqueue hgoes, h, hremaining, fun _ => ⟨hqueue, hgoes⟩⟩
      | false =>
        have hkeeps := keeps_step hstands hqueue hgoes
        unfold Stepped.Keeps at hkeeps
        cases hfailure : s.step.failure with
        | none =>
          rw [hfailure] at hkeeps
          rw [next_step hqueue hgoes hfailure, ← hkeeps]
          exact ih _ (hbudget ▸ budget_step hstands hgoes hfailure)
            (.step h hqueue hgoes hfailure) rfl
        | some e =>
          rw [hfailure] at hkeeps
          rw [next_fail hqueue hgoes hfailure, hkeeps]
          exact ⟨_, rfl, .fail h hqueue hgoes hfailure, rfl, fun _ => ⟨rfl, rfl⟩⟩

theorem calls_succ {count : Nat} {item : Option (Except Error Token)}
    {items : List (Option (Except Error Token))} {last : Scanner}
    (hnext : s.next = .some (item, s')) (hcalls : s'.calls count = .some (items, last)) :
    s.calls (count + 1) = .some (item :: items, last) := by
  rw [calls, hnext, Part.bind_some]
  dsimp only
  rw [hcalls, Part.map_some]

/-- Calls get what the scanner will yield, an item each. -/
theorem calls_eq (h : Reaches source s) :
    ∃ s', s.calls s.remaining.length = .some (s.remaining.map some, s') ∧ Reaches source s' ∧
      s'.remaining = [] := by
  induction hitems : s.remaining generalizing s with
  | nil => exact ⟨s, rfl, h, hitems⟩
  | cons item items ih =>
    obtain ⟨behind, hnext, hreaches, hremaining, -⟩ := next_eq h
    rw [hitems] at hnext hremaining
    obtain ⟨last, hcalls, hlast, hdone⟩ := ih hreaches hremaining
    exact ⟨last, calls_succ hnext hcalls, hlast, hdone⟩

/-- A scanner that is finished, with no token that waits, yields nothing and stays as it is. -/
theorem calls_idle (hqueue : s.queue = []) (hfinished : s.finished = true) (count : Nat) :
    s.calls count = .some (List.replicate count none, s) := by
  induction count with
  | zero => rfl
  | succ count ih => exact calls_succ (next_idle hqueue hfinished) ih

theorem remaining_ofSource (source : String) :
    (ofSource source).remaining = (Token.scan source).items := by
  rw [(standsBehind_ofSource source).remaining_eq rfl]
  rfl

end Scanner

/-! ## How many items there are -/

/-- Each token takes a byte at least. -/
theorem Token.Placed.length_le {front s : List Char} {tokens : List Token}
    (h : Placed front tokens s) : tokens.length ≤ (String.ofList s).utf8ByteSize := by
  induction h with
  | nil => exact Nat.zero_le _
  | @cons front slice rest token tokens stands _ ih =>
    have hpos : 0 < (String.ofList slice).utf8ByteSize := by
      rw [Nat.pos_iff_ne_zero, Ne, String.utf8ByteSize_eq_zero_iff, ← String.toList_inj,
        String.toList_ofList]
      exact stands.nonempty
    rw [List.length_cons, String.ofList_append, String.utf8ByteSize_append]
    omega

theorem Token.length_items_le (source : String) :
    (scan source).items.length ≤ source.utf8ByteSize + 1 := by
  have htokens := (scan_placed source).length_le
  rw [String.ofList_toList] at htokens
  rw [Scan.items, List.length_append, List.length_map]
  cases (scan source).failure with
  | none => exact Nat.le_succ_of_le htokens
  | some e => exact Nat.succ_le_succ htokens

namespace Scanner

variable {source : String} {s : Scanner}

/-- Scanning makes progress and stops for good. Wherever a scanner comes to, its place is a place
between characters of the source, and in front of more of it a step moves on or fails. A call
returns, and behind one that yields no token every call yields nothing, until the scanner starts
anew. From the start the calls yield what is read in one go, which is no more than an item for each
byte of the source and one, and the call behind them yields nothing. -/
theorem stops (source : String) :
    let items := (Token.scan source).items
    (∀ s, Reaches source s →
      (String.Pos.Raw.mk s.position.offset).IsValid source ∧
        s.position.offset ≤ source.utf8ByteSize ∧
        (s.atEnd = false → s.step.failure = none →
          s.position.offset < s.step.scanner.position.offset) ∧
        (∃ item s', s.next = .some (item, s') ∧ Reaches source s' ∧
          ((∀ token, item ≠ some (.ok token)) →
            ∀ count, s'.calls count = .some (List.replicate count none, s'))) ∧
        s.reset = ofSource source) ∧
      items.length ≤ source.utf8ByteSize + 1 ∧
      ∃ s s', (ofSource source).calls items.length = .some (items.map some, s) ∧
        Reaches source s ∧ s.next = .some (none, s') := by
  intro items
  refine ⟨fun s hs => ?_, Token.length_items_le source, ?_⟩
  · obtain ⟨front, rest, hstands⟩ := hs.standsBehind
    obtain ⟨s', hnext, hreaches, -, hends⟩ := next_eq hs
    refine ⟨hstands.marks.boundary, ?_, offset_lt_step hstands, ?_, ?_⟩
    · rw [hstands.bytes]
      exact Nat.le_add_right _ _
    · refine ⟨_, s', hnext, hreaches, fun hno count => ?_⟩
      obtain ⟨hqueue, hfinished⟩ := hends hno
      exact calls_idle hqueue hfinished count
    · rw [reset, hstands.source_eq]
  · have hstart : Reaches source (ofSource source) := .start
    obtain ⟨s, hcalls, hreaches, hdone⟩ := calls_eq hstart
    obtain ⟨s', hnext, -⟩ := next_eq hreaches
    rw [remaining_ofSource] at hcalls
    rw [hdone] at hnext
    exact ⟨s, s', hcalls, hreaches, hnext⟩

/-- A letter of two bytes in front of a name, and a literal that is left open behind it. The first
step moves over the letter; there are three items, and for good nothing behind the error. -/
theorem stops_literal :
    let source := "é :x.\n'ü"
    let items : List (Except Error Token) := [.ok ⟨.text "é ", .start⟩,
      .ok ⟨.bind "x" false, ⟨3, 1, 4⟩⟩, .error (.parse ⟨7, 2, 1⟩ .unterminatedString)]
    (Token.scan source).items = items ∧
      (0 < (ofSource source).step.scanner.position.offset ∧
        (ofSource source).step.scanner.position.offset = 2) ∧
      ∃ s s', (ofSource source).calls 3 = .some (items.map some, s) ∧
        s.next = .some (none, s') ∧
        ∀ count, s'.calls count = .some (List.replicate count none, s') := by
  intro source items
  have hitems : (Token.scan source).items = items := by decide +kernel
  have hgoes : (ofSource source).atEnd = false ∧ (ofSource source).step.failure = none ∧
      (ofSource source).step.scanner.position.offset = 2 := by decide +kernel
  obtain ⟨hevery, -, s, s', hcalls, hreaches, hnext⟩ := stops source
  obtain ⟨-, -, hmoves, -⟩ := hevery _ .start
  obtain ⟨-, -, -, ⟨item, last, hitem, -, hends⟩, -⟩ := hevery s hreaches
  cases Part.some_injective (hnext.symm.trans hitem)
  rw [hitems] at hcalls
  refine ⟨hitems, ⟨hmoves hgoes.1 hgoes.2.1, hgoes.2.2⟩, s, s', hcalls, hnext, hends ?_⟩
  intro token htoken
  cases htoken

end Scanner

end TwoWaySql
