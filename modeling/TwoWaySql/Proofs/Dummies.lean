import TwoWaySql.Proofs.Places
import TwoWaySql.Proofs.Printing
import TwoWaySql.Value

/-!
# Literals as dummy values

A variable in front of a literal leaves the literal out of the statement. A literal writes a quote
of its text twice, and a dummy value ends at its first quote: what a literal holds behind such a
pair stays in the statement as text. This file shows that this is the whole difference: the dummy
value is left out as a whole if and only if its text has no quote or nothing is scanned behind it
(`Token.leavesOut_iff`).
-/

namespace TwoWaySql

open Value (quoteLiteral)

/-! ## Literals -/

/-- Behind a quote of its text a literal goes on as another one. -/
theorem Value.quoteLiteral_append_quote (s t : List Char) :
    quoteLiteral (s ++ '\'' :: t) = quoteLiteral s ++ quoteLiteral t := by
  simp [quoteLiteral]

theorem Value.quoteLiteral_of_not_mem {s : List Char} (h : '\'' ∉ s) :
    quoteLiteral s = '\'' :: (s ++ ['\'']) := by
  have hplain : (s.flatMap fun c => if c = '\'' then ['\'', '\''] else [c]) = s := by
    induction s with
    | nil => rfl
    | cons c rest ih =>
      rw [List.mem_cons, not_or] at h
      obtain ⟨hc, hrest⟩ := h
      rw [List.flatMap_cons, if_neg (Ne.symm hc), ih hrest]
      rfl
  rw [quoteLiteral, hplain, List.cons_append]

theorem Text.cutThrough?_append_cons {mark : Char} {s : List Char} (h : mark ∉ s)
    (rest : List Char) : cutThrough? mark (s ++ mark :: rest) = some (s ++ [mark], rest) := by
  induction s with
  | nil => exact if_pos rfl
  | cons c more ih =>
    rw [List.mem_cons, not_or] at h
    obtain ⟨hc, hmore⟩ := h
    rw [List.cons_append, cutThrough?, if_neg (Ne.symm hc), ih hmore]
    rfl

/-! ## Scanning a literal -/

theorem Position.offset_le_after (p : Position) (s : List Char) :
    p.offset ≤ (p.after s).offset := by
  induction s generalizing p with
  | nil => exact Nat.le_refl _
  | cons c rest ih =>
    have hnext : p.offset ≤ (p.next c).offset := by
      unfold next
      split <;> exact Nat.le_add_right _ _
    exact Nat.le_trans hnext (ih (p.next c))

theorem Position.offset_lt_after (p : Position) {s : List Char} (h : s ≠ []) :
    p.offset < (p.after s).offset := by
  cases s with
  | nil => exact absurd rfl h
  | cons c rest =>
    have hnext : p.offset < (p.next c).offset := by
      unfold next
      split <;> exact Nat.lt_add_of_pos_right c.utf8Size_pos
    exact Nat.lt_of_lt_of_le hnext (offset_le_after (p.next c) rest)

namespace Lexeme

theorem read_literal {s : List Char} (h : '\'' ∉ s) (position : Position) (rest : List Char) :
    read position '\'' (s ++ '\'' :: rest) =
      .ok ⟨.text (quoteLiteral s), s ++ ['\''], rest⟩ := by
  show readLiteral position (s ++ '\'' :: rest) = _
  rw [readLiteral, Text.cutThrough?_append_cons h, Value.quoteLiteral_of_not_mem h]

end Lexeme

namespace Token

theorem Pending.push_push (pending : Pending) (position next : Position) {s : List Char}
    (h : s ≠ []) (t : List Char) :
    (pending.push position s).push next t = pending.push position (s ++ t) := by
  have hne : (pending.push position s).text.isEmpty = false := by
    rw [push_text]
    simp [h]
  rw [push, hne, push_text, String.append_assoc, ← String.ofList_append]
  rfl

theorem scanFrom_quoted {s : List Char} (h : '\'' ∉ s) (nesting : Nesting) (pending : Pending)
    (position : Position) (t : List Char) :
    scanFrom nesting pending position (quoteLiteral s ++ t) =
      scanFrom nesting (pending.push position (quoteLiteral s))
        (position.after (quoteLiteral s)) t := by
  have hread := Lexeme.read_literal h position t
  rw [Value.quoteLiteral_of_not_mem h] at hread ⊢
  rw [List.cons_append, List.append_assoc]
  exact scanFrom_text hread nesting pending

/-- A literal is taken up as text whole, although it is scanned as several ones. -/
theorem scanFrom_literal (nesting : Nesting) (pending : Pending) (position : Position)
    (s t : List Char) :
    scanFrom nesting pending position (quoteLiteral s ++ t) =
      scanFrom nesting (pending.push position (quoteLiteral s))
        (position.after (quoteLiteral s)) t := by
  induction hlength : s.length using Nat.strongRecOn generalizing s pending position with
  | ind length ih =>
    by_cases hquote : '\'' ∈ s
    · obtain ⟨a, b, rfl, ha⟩ := List.eq_append_cons_of_mem hquote
      have hshorter : b.length < length := by
        rw [← hlength, List.length_append, List.length_cons]
        omega
      have hne : quoteLiteral a ≠ [] := List.cons_ne_nil _ _
      rw [Value.quoteLiteral_append_quote, List.append_assoc, scanFrom_quoted ha,
        ih b.length hshorter _ _ b rfl, Pending.push_push _ _ _ hne, Position.after_append]
    · exact scanFrom_quoted hquote nesting pending position t

/-- A scan that does not stop before it yields anything yields the pending text first, where that
starts. -/
theorem scanFrom_pending (nesting : Nesting) {pending : Pending} (position : Position)
    (s : List Char) (h : pending.text ≠ "") :
    (∃ e, scanFrom nesting pending position s = ⟨[], some e⟩) ∨
      ∃ kind more failure,
        scanFrom nesting pending position s = ⟨⟨kind, pending.position⟩ :: more, failure⟩ := by
  have htokens {pending : Pending} (h : pending.text ≠ "") :
      pending.tokens = [⟨.text pending.text, pending.position⟩] := if_neg (by simpa using h)
  fun_induction scanFrom nesting pending position s with
  | case1 pending position => exact .inr ⟨_, _, _, by rw [htokens h]⟩
  | case2 pending position opened start outer => exact .inl ⟨_, rfl⟩
  | case3 nesting pending position c s e hread => exact .inl ⟨e, rfl⟩
  | case4 nesting pending position c s decoded taken rest hread ih =>
    have hplace : (pending.push position decoded).position = pending.position :=
      if_neg (by simpa using h)
    rw [← hplace]
    apply ih
    rw [Pending.push_text]
    simp [h]
  | case5 nesting pending position c s lexeme taken rest hnot hread e haccept =>
    exact .inl ⟨e, rfl⟩
  | case6 nesting pending position c s lexeme taken rest hnot hread kind next haccept ih =>
    exact .inr ⟨_, _, _, by rw [htokens h]; rfl⟩

end Token

/-! ## Variables -/

/-- The ways to write a variable: bound, or embedded as it is or as a literal. -/
inductive VariableForm where
  | bound
  | raw
  | quoted
  deriving DecidableEq, Repr

namespace VariableForm

/-- What stands in front of the name in the comment. -/
def sign : VariableForm → List Char
  | bound => []
  | raw => ['$']
  | quoted => ['#']

def directive (name : String) : VariableForm → Directive
  | bound => .bind name
  | raw => .embedded name false
  | quoted => .embedded name true

/-- The token of a variable whose dummy value is no group. -/
def token (name : String) : VariableForm → TokenKind
  | bound => .bind name false
  | raw => .embedded name false
  | quoted => .embedded name true

/-- The comment that a variable is written as. -/
def comment (name : String) (form : VariableForm) : List Char :=
  Text.comment (form.sign ++ name.toList)

theorem read_directive {name : String} (hvalid : Name.isValid name.toList = true)
    (hkeyword : name ∉ Directive.keywords) (form : VariableForm) :
    Directive.read (form.sign ++ name.toList) = .ok (form.directive name) := by
  cases form with
  | bound =>
    show Directive.read name.toList = _
    rw [Directive.read_name hvalid, String.ofList_toList]
    · rfl
    · rwa [String.ofList_toList]
  | raw =>
    have h := Directive.read_sign hvalid false
    rwa [String.ofList_toList] at h
  | quoted =>
    have h := Directive.read_sign hvalid true
    rwa [String.ofList_toList] at h

theorem isDirective {name : String} (hvalid : Name.isValid name.toList = true)
    (form : VariableForm) : Directive.isDirective (form.sign ++ name.toList) = true := by
  cases form with
  | bound =>
    obtain ⟨c, rest, hcons, hc⟩ := Name.exists_cons_of_isValid hvalid
    show Directive.isDirective name.toList = true
    rw [hcons]
    exact Directive.isDirective_of_isStart hc rest
  | raw | quoted => rfl

/-- A variable takes the literal behind it up to its first inner quote. -/
theorem read_variable {name : String} (hvalid : Name.isValid name.toList = true)
    (hkeyword : name ∉ Directive.keywords) (form : VariableForm) {s : List Char}
    (hs : '\'' ∉ s) (position : Position) (rest : List Char) :
    ∃ lexeme taken, form.comment name ++ quoteLiteral s = '/' :: taken ∧
      Lexeme.read position '/' (taken ++ rest) = .ok ⟨lexeme, taken, rest⟩ ∧
      (∀ decoded, lexeme ≠ .text decoded) ∧
      ∀ nesting, Token.accept nesting position lexeme = .ok (form.token name, nesting) := by
  have hsign : '*' ∉ form.sign := by cases form <;> decide
  have hread := Lexeme.read_variable hvalid hsign (form.isDirective hvalid)
    (form.read_directive hvalid hkeyword) position (quoteLiteral s ++ rest)
  have hdummy (position : Position) : Dummy.read position (quoteLiteral s ++ rest) =
      .ok ⟨false, quoteLiteral s, rest⟩ := by
    rw [Value.quoteLiteral_of_not_mem hs, List.cons_append, List.append_assoc]
    show Dummy.read position ('\'' :: (s ++ '\'' :: rest)) = _
    simp only [Dummy.read, Text.cutThrough?_append_cons hs]
  rw [← List.append_assoc] at hread
  cases form with
  | bound =>
    rw [directive, Lexeme.ofDirective, hdummy] at hread
    exact ⟨_, _, rfl, hread, nofun, fun _ => rfl⟩
  | raw | quoted =>
    rw [directive, Lexeme.ofDirective, hdummy] at hread
    exact ⟨_, _, rfl, hread, nofun, fun _ => rfl⟩

end VariableForm

namespace Token

theorem scanFrom_variable {name : String} (hvalid : Name.isValid name.toList = true)
    (hkeyword : name ∉ Directive.keywords) (form : VariableForm) {s : List Char}
    (hs : '\'' ∉ s) (position : Position) (rest : List Char) :
    scanFrom [] .none position (form.comment name ++ quoteLiteral s ++ rest) =
      (scanFrom [] .none (position.after (form.comment name ++ quoteLiteral s)) rest).prepend
        [⟨form.token name, position⟩] := by
  obtain ⟨lexeme, taken, hsource, hread, htext, haccept⟩ :=
    form.read_variable hvalid hkeyword hs position rest
  rw [hsource, List.cons_append, scanFrom_accept hread htext (haccept [])]
  rfl

/-- A scan that starts at a place is the scan of the text alone, seen from there. -/
theorem scan_behind (base : Position) (t : String) :
    scanFrom [] .none base t.toList = (scan t).behind base := by
  have hnone : Pending.none.Moved base Pending.none := ⟨rfl, fun hne => absurd rfl hne⟩
  have hmoved : scanFrom (Nesting.behind base []) .none (base.behind .start) t.toList =
      (scan t).behind base := scanFrom_moved Position.proper_start hnone t.toList
  rw [Position.behind_start] at hmoved
  exact hmoved

/-- The scan of a text is the same behind the pending text if and only if it yields nothing. -/
theorem scanFrom_pending_eq_iff {pending : Pending} (h : pending.text ≠ "") {base : Position}
    (hbase : pending.position.offset < base.offset) (t : String) :
    scanFrom [] pending base t.toList = (scan t).behind base ↔ ∃ e, scan t = ⟨[], some e⟩ := by
  constructor
  · intro heq
    rcases scanFrom_pending [] base t.toList h with ⟨e, hstop⟩ | ⟨kind, more, failure, hfirst⟩
    · have hbehind := heq.symm.trans hstop
      have htokens := congrArg Scan.tokens hbehind
      have hfailure := congrArg Scan.failure hbehind
      obtain ⟨e', he', -⟩ := Option.map_eq_some_iff.1 hfailure
      refine ⟨e', ?_⟩
      rw [← he', ← List.map_eq_nil_iff.1 htokens]
    · -- the first token would start behind the base and in front of it
      have htokens := congrArg Scan.tokens (heq.symm.trans hfirst)
      obtain ⟨first, others, -, hplace, -⟩ := List.map_eq_cons_iff.1 htokens
      have hoffset := congrArg (fun token => token.position.offset) hplace
      change base.offset + first.position.offset = pending.position.offset at hoffset
      omega
  · rintro ⟨e, hstop⟩
    have hnone := scan_behind base t
    rw [hstop] at hnone ⊢
    exact scanFrom_stopped hnone pending

theorem prepend_inj (tokens : List Token) {s t : Scan} :
    s.prepend tokens = t.prepend tokens ↔ s = t := by
  constructor
  · intro h
    have htokens := congrArg Scan.tokens h
    have hfailure := congrArg Scan.failure h
    cases s
    cases t
    rw [Scan.mk.injEq]
    exact ⟨List.append_cancel_left htokens, hfailure⟩
  · rintro rfl
    rfl

/-- Whether a variable in front of a literal leaves the whole literal out: what is scanned is its
token and then what is scanned behind the literal. -/
def LeavesOut (form : VariableForm) (name s t : String) : Prop :=
  let source := String.ofList (form.comment name) ++ (Value.string s).literal
  scan (source ++ t) =
    ((scan t).behind (Position.start.after source.toList)).prepend [⟨form.token name, .start⟩]

/-- A literal is left out as a whole if and only if its text holds no quote, or if nothing is
scanned behind it. -/
theorem leavesOut_iff (form : VariableForm) {name : String}
    (hvalid : Name.isValid name.toList = true) (hkeyword : name ∉ Directive.keywords)
    (s t : String) :
    LeavesOut form name s t ↔ '\'' ∉ s.toList ∨ ∃ e, scan t = ⟨[], some e⟩ := by
  have hsource : (String.ofList (form.comment name) ++ (Value.string s).literal).toList =
      form.comment name ++ quoteLiteral s.toList := by
    rw [String.toList_append, String.toList_ofList, Value.literal, String.toList_ofList]
  rw [LeavesOut, scan, String.toList_append, hsource]
  by_cases hquote : '\'' ∈ s.toList
  · obtain ⟨a, b, hs, ha⟩ := List.eq_append_cons_of_mem hquote
    have hne : quoteLiteral b ≠ [] := List.cons_ne_nil _ _
    let before := form.comment name ++ quoteLiteral a
    let pending := Pending.none.push (Position.start.after before) (quoteLiteral b)
    -- the rest of the literal is text behind the token
    have hscan : scanFrom [] .none .start (before ++ (quoteLiteral b ++ t.toList)) =
        (scanFrom [] pending (Position.start.after (before ++ quoteLiteral b)) t.toList).prepend
          [⟨form.token name, .start⟩] := by
      rw [scanFrom_variable hvalid hkeyword form ha, scanFrom_literal,
        Position.after_append .start before]
    have hplace : pending.position.offset <
        (Position.start.after (before ++ quoteLiteral b)).offset := by
      rw [Position.after_append]
      exact Position.offset_lt_after _ hne
    have htext : pending.text ≠ "" := by
      rw [Pending.push_text]
      simp [Pending.none, hne]
    rw [hs, Value.quoteLiteral_append_quote, ← List.append_assoc, List.append_assoc, hscan,
      prepend_inj, scanFrom_pending_eq_iff htext hplace]
    simp
  · rw [scanFrom_variable hvalid hkeyword form hquote, scan_behind]
    simp [hquote]

/-- A literal with an inner blank and a parenthesis, in front of more of the statement. -/
theorem leavesOut_city :
    Name.isValid "user.city".toList = true ∧ "user.city" ∉ Directive.keywords ∧
      LeavesOut .quoted "user.city" "Den Haag (NL)" " AND id = /*id*/1" := by
  have hvalid : Name.isValid "user.city".toList = true := by decide +kernel
  have hkeyword : "user.city" ∉ Directive.keywords := by decide
  exact ⟨hvalid, hkeyword, (leavesOut_iff .quoted hvalid hkeyword _ _).2 (.inl (by decide))⟩

/-- Not every literal is left out as a whole: behind `/*id*/'it'` there is the text `'s'`. -/
theorem not_forall_leavesOut :
    ¬ ∀ (form : VariableForm) (name : String), Name.isValid name.toList = true →
        name ∉ Directive.keywords →
        ∀ s t : String, t.toList.head? ≠ some '\'' → LeavesOut form name s t := by
  intro h
  have hleft : LeavesOut .bound "id" "it's" "" := h .bound "id" rfl (by decide) "it's" "" nofun
  have htokens := congrArg (fun s => s.tokens.length) hleft
  revert htokens
  decide +kernel

end Token

end TwoWaySql
