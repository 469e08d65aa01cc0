import TwoWaySql.Encoding.Statement
import TwoWaySql.Encoding.Token
import TwoWaySql.Proofs.Collecting
import TwoWaySql.Proofs.Documents

/-!
# Data survives JSON

Data that is written as JSON and read again is the same data. A value is written without a word on
its kind, so the kinds are tried one after the other, and no kind before its own may take the
document that a value is written as; a float may come back as another one, which is why values with
floats are left out (`Value.isExact`). All numbers in data are of 64 bits (`Position.Fits` and its
like). This file

1. shows that sorting leaves entries alone that are in ascending order
   (`Entries.sort_eq_self`), so that maps and tables come back as they were;
2. says when a document stands for a piece of data (`Json.Renders`): it is read as that data, it
   holds whole numbers only, and it is nested no deeper than a bound;
3. shows this for one kind of data after the other, each from the data that it is made of;
4. concludes that the text of all of them is read back, whatever the format, if it reads back
   documents (`Json.restores`).
-/

namespace TwoWaySql

/-! ## Entries in order -/

namespace Entries

variable {κ α : Type} [Ord κ] [Std.TransOrd κ]

theorem insert_behind {k : κ} {entries : List (κ × α)}
    (h : ∀ e ∈ entries, compare e.1 k = .lt) (v : α) :
    insert k v entries = entries ++ [(k, v)] := by
  induction entries with
  | nil => rfl
  | cons e rest ih =>
    obtain ⟨hfirst, hrest⟩ := List.forall_mem_cons.1 h
    have hbehind : compare k e.1 = .gt := Std.OrientedCmp.gt_iff_lt.2 hfirst
    obtain ⟨l, w⟩ := e
    rw [insert, hbehind, List.cons_append]
    exact congrArg _ (ih hrest)

theorem foldl_insert {sorted entries : List (κ × α)} (h : Ascending (sorted ++ entries)) :
    entries.foldl (fun sorted e => insert e.1 e.2 sorted) sorted = sorted ++ entries := by
  induction entries generalizing sorted with
  | nil => rw [List.append_nil, List.foldl_nil]
  | cons e rest ih =>
    obtain ⟨-, -, hbetween⟩ := List.pairwise_append.1 h
    have hbefore : insert e.1 e.2 sorted = sorted ++ [e] :=
      insert_behind (fun f hf => hbetween f hf e List.mem_cons_self) e.2
    rw [List.append_cons] at h ⊢
    rw [List.foldl_cons, hbefore, ih h]

/-- Entries in order stay as they are when they are sorted. -/
theorem sort_eq_self {entries : List (κ × α)} (h : Ascending entries) : sort entries = entries :=
  foldl_insert h

end Entries

theorem Table.ofList_entries {κ α : Type} [Ord κ] [Std.TransOrd κ] [Std.LawfulEqOrd κ]
    (t : Table κ α) : ofList t.entries = t := by
  have hfold (entries : List (κ × α)) (u : Table κ α) :
      (entries.foldl (fun t e => t.insert e.1 e.2) u).entries =
        entries.foldl (fun sorted e => Entries.insert e.1 e.2 sorted) u.entries := by
    induction entries generalizing u with
    | nil => rfl
    | cons e rest ih => exact ih _
  obtain ⟨entries, h⟩ := t
  have hentries : (ofList entries).entries = entries :=
    (hfold entries empty).trans (Entries.sort_eq_self h)
  unfold ofList at hentries ⊢
  cases hlist : entries.foldl (fun t e => t.insert e.1 e.2) (empty : Table κ α) with
  | mk found hfound =>
    rw [hlist] at hentries
    cases hentries
    rfl

/-! ## Documents that stand for data -/

namespace Json

/-- If each part is read as what it was made of, so are all of them in a row. -/
theorem mapM_map_eq_some {α β : Type} {write : α → β} {read? : β → Option α} {as : List α}
    (h : ∀ a ∈ as, read? (write a) = some a) : (as.map write).mapM read? = some as := by
  induction as with
  | nil => rfl
  | cons a as ih =>
    obtain ⟨ha, has⟩ := List.forall_mem_cons.1 h
    rw [List.map_cons, List.mapM_cons, ha, ih has]
    rfl

/-- A document stands for a piece of data: it is read as that data, it can be written and read back,
and it is nested no deeper than a bound. -/
structure Renders {α : Type} (j : Json) (read? : Json → Option α) (a : α) (depth : Nat) : Prop where
  read : read? j = some a
  whole : j.isWhole = true
  nesting_le : j.nesting ≤ depth

theorem bounds_object {members : List (String × Json)} {depth : Nat}
    (h : ∀ e ∈ members, e.2.isWhole = true ∧ e.2.nesting ≤ depth) :
    (object members).isWhole = true ∧ (object members).nesting ≤ depth + 1 := by
  rw [nesting, Nat.add_le_add_iff_right, nestingMembers_le_iff]
  exact ⟨holdWhole_iff.2 fun e he => (h e he).1, fun e he => (h e he).2⟩

theorem bounds_array {items : List Json} {depth : Nat}
    (h : ∀ j ∈ items, j.isWhole = true ∧ j.nesting ≤ depth) :
    (array items).isWhole = true ∧ (array items).nesting ≤ depth + 1 := by
  rw [nesting, Nat.add_le_add_iff_right, nestingItems_le_iff]
  exact ⟨areWhole_iff.2 fun j hj => (h j hj).1, fun j hj => (h j hj).2⟩

namespace Renders

variable {α : Type} {j : Json} {read? : Json → Option α} {a : α} {depth : Nat}

theorem mono (h : Renders j read? a depth) {more : Nat} (hmore : depth ≤ more) :
    Renders j read? a more :=
  ⟨h.read, h.whole, Nat.le_trans h.nesting_le hmore⟩

theorem bounds (h : Renders j read? a depth) : j.isWhole = true ∧ j.nesting ≤ depth :=
  ⟨h.whole, h.nesting_le⟩

/-- An object is bounded as its members are. -/
theorem object {members : List (String × Json)} (hread : read? (.object members) = some a)
    (h : ∀ e ∈ members, e.2.isWhole = true ∧ e.2.nesting ≤ depth) :
    Renders (.object members) read? a (depth + 1) :=
  ⟨hread, (bounds_object h).1, (bounds_object h).2⟩

/-- The document of a case is bounded as its payload is. -/
theorem ofCase {name : String} {payload : Json} (hread : read? (.ofCase name payload) = some a)
    (h : payload.isWhole = true ∧ payload.nesting ≤ depth) :
    Renders (.ofCase name payload) read? a (depth + 1) :=
  object hread (List.forall_mem_singleton.2 h)

theorem natural {n : Nat} (h : n ≤ maxInteger) : Renders (ofNatural n) natural? n 0 where
  read := by
    have hlow : (0 : Int) ≤ n := Int.natCast_nonneg n
    simp [ofNatural, natural?, h, hlow]
  whole := by
    have hlow : minInteger ≤ n := Int.le_trans (by decide) (Int.natCast_nonneg n)
    simp [ofNatural, isWhole, h, hlow]
  nesting_le := Nat.le_refl 0

theorem text (s : String) : Renders (.string s) text? s 0 := ⟨rfl, rfl, Nat.le_refl 0⟩

/-- A field that may be absent. Null stands for nothing there. -/
theorem option {write : α → Json} {o : Option α}
    (h : ∀ a ∈ o, Renders (write a) read? a depth) (hnull : ∀ a, write a ≠ .null) :
    Renders (ofOption write o) (fun j => optional? read? (some j)) o depth := by
  cases o with
  | none => exact ⟨rfl, rfl, Nat.zero_le _⟩
  | some a =>
    obtain ⟨hread, hwhole, hnesting⟩ := h a rfl
    refine ⟨?_, hwhole, hnesting⟩
    show optional? read? (some (write a)) = some (some a)
    unfold optional?
    split
    · next heq => cases heq
    · next heq => exact absurd (Option.some.inj heq) (hnull a)
    · next heq =>
      cases heq
      rw [hread]
      rfl

/-- The text of a document is read as the data that the document stands for. -/
theorem read_write {f : Format} (hf : f.IsFaithful) (h : Renders j read? a depth)
    (hdepth : depth ≤ maxNesting) : (f.parse? (f.write j)).bind read? = some a := by
  rw [hf.parse?_write h.whole (Nat.le_trans h.nesting_le hdepth)]
  exact h.read

end Renders

end Json

/-! ## Positions and errors -/

/-- The numbers of a position are of 64 bits. -/
def Position.Fits (p : Position) : Prop :=
  p.offset ≤ Json.maxInteger ∧ p.line ≤ Json.maxInteger ∧ p.column ≤ Json.maxInteger

theorem Position.renders {p : Position} (h : p.Fits) : p.toJson.Renders ofJson? p 1 := by
  obtain ⟨hoffset, hline, hcolumn⟩ := h
  have hoffset := Json.Renders.natural hoffset
  have hline := Json.Renders.natural hline
  have hcolumn := Json.Renders.natural hcolumn
  refine .object ?_ (List.forall_mem_cons.2 ⟨hoffset.bounds, List.forall_mem_cons.2
    ⟨hline.bounds, List.forall_mem_singleton.2 hcolumn.bounds⟩⟩)
  show (do
    return ⟨← (Json.ofNatural p.offset).natural?, ← (Json.ofNatural p.line).natural?,
      ← (Json.ofNatural p.column).natural?⟩ : Option Position) = some p
  rw [hoffset.read, hline.read, hcolumn.read]
  rfl

theorem SyntaxFault.renders (fault : SyntaxFault) :
    fault.toJson.Renders (ofJson? .text) fault 2 := by
  cases fault with
  | unterminatedComment | unterminatedString | unterminatedParen =>
    exact ⟨rfl, rfl, Nat.zero_le _⟩
  | invalidIdentifier start => exact ⟨rfl, rfl, Nat.le_refl 2⟩
  | unknownKeyword keyword => exact ⟨rfl, rfl, Nat.le_refl 2⟩
  | expected description => exact ⟨rfl, rfl, Nat.le_refl 2⟩

/-- The number in a fault is of 64 bits. -/
def NestingFault.Fits : NestingFault → Prop
  | tooDeep limit => limit ≤ Json.maxInteger
  | _ => True

theorem NestingFault.renders {fault : NestingFault} (h : fault.Fits) :
    fault.toJson.Renders (ofJson? .text) fault 2 := by
  cases fault with
  | unmatchedEnd => exact ⟨rfl, rfl, Nat.zero_le _⟩
  | alternateWithoutIf directive => exact ⟨rfl, rfl, Nat.le_refl 2⟩
  | alternateAfterElse directive => exact ⟨rfl, rfl, Nat.le_refl 2⟩
  | unterminated directive => exact ⟨rfl, rfl, Nat.le_refl 2⟩
  | tooDeep limit =>
    have hlimit := Json.Renders.natural h
    refine .ofCase ?_ (Json.bounds_object (List.forall_mem_singleton.2 hlimit.bounds))
    show (Json.ofNatural limit).natural?.map tooDeep = some (tooDeep limit)
    rw [hlimit.read]
    rfl

/-- The numbers of an error are of 64 bits. -/
def Error.Fits : Error → Prop
  | parse position _ => position.Fits
  | structural position fault => position.Fits ∧ fault.Fits
  | evaluationType _ _ | missingParameter _ | evaluation _ _ => True

theorem Error.renders_located {α : Type} {fault? : Json → Option α} {position : Position}
    {fault : Json} {a : α} {depth : Nat} (hposition : position.Fits)
    (h : fault.Renders fault? a (depth + 1)) :
    (located position fault).Renders (located? fault?) (position, a) (depth + 2) := by
  have hposition := (Position.renders hposition).mono (Nat.le_add_left 1 depth)
  refine .object ?_
    (List.forall_mem_cons.2 ⟨hposition.bounds, List.forall_mem_singleton.2 h.bounds⟩)
  show (do return (← Position.ofJson? position.toJson, ← fault? fault) : Option (Position × α)) =
    some (position, a)
  rw [hposition.read, h.read]
  rfl

theorem Error.renders {e : Error} (h : e.Fits) : e.toJson.Renders (ofJson? .text) e 4 := by
  cases e with
  | parse position fault =>
    have hfault := renders_located h fault.renders
    refine .ofCase ?_ hfault.bounds
    show (located? (SyntaxFault.ofJson? .text) (located position fault.toJson)).bind
      (fun found => some (parse found.1 found.2)) = some (parse position fault)
    rw [hfault.read]
    rfl
  | structural position fault =>
    have hfault := renders_located h.1 (NestingFault.renders h.2)
    refine .ofCase ?_ hfault.bounds
    show (located? (NestingFault.ofJson? .text) (located position fault.toJson)).bind
      (fun found => some (structural found.1 found.2)) = some (structural position fault)
    rw [hfault.read]
    rfl
  | evaluationType expression found => exact ⟨rfl, rfl, Nat.le_add_right 2 2⟩
  | missingParameter name => exact ⟨rfl, rfl, Nat.le_add_right 2 2⟩
  | evaluation expression message => exact ⟨rfl, rfl, Nat.le_add_right 2 2⟩

/-! ## Tokens -/

theorem TokenKind.renders (kind : TokenKind) : kind.toJson.Renders (ofJson? .text) kind 2 := by
  cases kind with
  | text content => exact ⟨rfl, rfl, Nat.le_add_right 1 1⟩
  | ifThen condition => exact ⟨rfl, rfl, Nat.le_add_right 1 1⟩
  | elseIf condition => exact ⟨rfl, rfl, Nat.le_add_right 1 1⟩
  | otherwise | endIf | beginBlock | endBlock => exact ⟨rfl, rfl, Nat.zero_le _⟩
  | bind name paren => exact ⟨rfl, rfl, Nat.le_refl 2⟩
  | embedded name quoted => exact ⟨rfl, rfl, Nat.le_refl 2⟩

theorem Token.renders {t : Token} (h : t.position.Fits) : t.toJson.Renders (ofJson? .text) t 3 := by
  have hkind := t.kind.renders
  have hposition := (Position.renders h).mono (Nat.le_succ 1)
  refine .object ?_
    (List.forall_mem_cons.2 ⟨hkind.bounds, List.forall_mem_singleton.2 hposition.bounds⟩)
  show (do
    return ⟨← TokenKind.ofJson? .text t.kind.toJson, ← Position.ofJson? t.position.toJson⟩ :
      Option Token) = some t
  rw [hkind.read, hposition.read]
  rfl

/-! ## Coverage -/

theorem BranchState.renders (state : BranchState) : state.toJson.Renders ofJson? state 0 := by
  cases state <;> exact ⟨rfl, rfl, Nat.le_refl 0⟩

theorem BranchKind.renders (kind : BranchKind) : kind.toJson.Renders ofJson? kind 0 := by
  cases kind <;> exact ⟨rfl, rfl, Nat.le_refl 0⟩

/-- The numbers of the branches are of 64 bits. -/
def Coverage.Fits (c : Coverage) : Prop := ∀ e ∈ c.states.entries, e.1 ≤ Json.maxInteger

theorem Coverage.branchOf?_keyOf {id : NodeId} (h : id ≤ Json.maxInteger) :
    branchOf? (keyOf id) = some id := by
  simp [branchOf?, keyOf, Expr.ofDigits_digitsOf, h]

theorem Coverage.renders {c : Coverage} (h : c.Fits) : c.toJson.Renders ofJson? c 2 := by
  let members := c.states.entries.map fun e => (keyOf e.1, e.2.toJson)
  have hentries : (members.mapM fun e => do
      return (← branchOf? e.1, ← BranchState.ofJson? e.2)) = some c.states.entries := by
    refine Json.mapM_map_eq_some fun e he => ?_
    show (do return (← branchOf? (keyOf e.1), ← BranchState.ofJson? e.2.toJson) :
      Option (NodeId × BranchState)) = some e
    rw [branchOf?_keyOf (h _ he), e.2.renders.read]
    rfl
  have hmembers : ∀ e ∈ members, e.2.isWhole = true ∧ e.2.nesting ≤ 0 := by
    intro e he
    obtain ⟨entry, -, rfl⟩ := List.mem_map.1 he
    exact entry.2.renders.bounds
  refine .object ?_ (List.forall_mem_singleton.2 (Json.bounds_object hmembers))
  show (do
    let entries ← members.mapM fun e => do
      return (← branchOf? e.1, ← BranchState.ofJson? e.2)
    return ⟨.ofList entries⟩ : Option Coverage) = some c
  rw [hentries]
  show some (⟨.ofList c.states.entries⟩ : Coverage) = some c
  rw [Table.ofList_entries]

/-- The numbers of a branch are of 64 bits. -/
def Branch.Fits (b : Branch) : Prop := b.id ≤ Json.maxInteger ∧ b.position.Fits

theorem Branch.renders {b : Branch} (h : b.Fits) : b.toJson.Renders ofJson? b 2 := by
  have hid := (Json.Renders.natural h.1).mono (Nat.zero_le 1)
  have hkind := b.kind.renders.mono (Nat.zero_le 1)
  have hexpression : (Json.ofOption .string b.expression).Renders
      (fun j => Json.optional? Json.text? (some j)) b.expression 1 :=
    .option (fun s _ => (Json.Renders.text s).mono (Nat.zero_le 1)) nofun
  have hposition := Position.renders h.2
  refine .object ?_ (List.forall_mem_cons.2 ⟨hid.bounds, List.forall_mem_cons.2
    ⟨hkind.bounds, List.forall_mem_cons.2
      ⟨hexpression.bounds, List.forall_mem_singleton.2 hposition.bounds⟩⟩⟩)
  show (do
    return ⟨← (Json.ofNatural b.id).natural?, ← BranchKind.ofJson? b.kind.toJson,
      ← Json.optional? Json.text? (some (Json.ofOption .string b.expression)),
      ← Position.ofJson? b.position.toJson⟩ : Option Branch) = some b
  have hread := hexpression.read
  rw [hid.read, hkind.read, hread, hposition.read]
  rfl

theorem BranchCoverage.renders {b : BranchCoverage} (h : b.branch.Fits) :
    b.toJson.Renders ofJson? b 3 := by
  have hbranch := Branch.renders h
  have hstate : (Json.ofOption BranchState.toJson b.state).Renders
      (fun j => Json.optional? BranchState.ofJson? (some j)) b.state 2 :=
    .option (fun state _ => state.renders.mono (Nat.zero_le 2)) (by rintro (_ | _) <;> nofun)
  refine .object ?_
    (List.forall_mem_cons.2 ⟨hbranch.bounds, List.forall_mem_singleton.2 hstate.bounds⟩)
  show (do
    return ⟨← Branch.ofJson? b.branch.toJson,
      ← Json.optional? BranchState.ofJson? (some (Json.ofOption BranchState.toJson b.state))⟩ :
      Option BranchCoverage) = some b
  have hread := hstate.read
  rw [hbranch.read, hread]
  rfl

/-- The numbers of a report are of 64 bits. -/
def CoverageReport.Fits (r : CoverageReport) : Prop := ∀ b ∈ r.branches, b.branch.Fits

theorem CoverageReport.renders {r : CoverageReport} (h : r.Fits) :
    r.toJson.Renders ofJson? r 5 := by
  have hbranches : ∀ b ∈ r.branches, b.toJson.Renders BranchCoverage.ofJson? b 3 :=
    fun b hb => BranchCoverage.renders (h b hb)
  refine .object ?_ (List.forall_mem_singleton.2
    (Json.bounds_array (List.forall_mem_map.2 fun b hb => (hbranches b hb).bounds)))
  show (do
    return ⟨← (r.branches.map BranchCoverage.toJson).mapM BranchCoverage.ofJson?⟩ :
      Option CoverageReport) = some r
  rw [Json.mapM_map_eq_some fun b hb => (hbranches b hb).read]
  rfl

/-! ## Values -/

namespace Value

mutual

/-- Whether there is no float in a value. -/
def isExact : Value → Bool
  | null | bool _ | int _ | string _ => true
  | float _ => false
  | list items => areExact items
  | map entries => holdExact entries

def areExact : List Value → Bool
  | [] => true
  | v :: rest => isExact v && areExact rest

def holdExact : List (String × Value) → Bool
  | [] => true
  | (_, v) :: rest => isExact v && holdExact rest

end

mutual

/-- The entries of all maps in a value are in ascending order of their keys. -/
def IsOrdered : Value → Prop
  | null | bool _ | int _ | float _ | string _ => True
  | list items => AreOrdered items
  | map entries => Ascending entries ∧ HoldOrdered entries

def AreOrdered : List Value → Prop
  | [] => True
  | v :: rest => IsOrdered v ∧ AreOrdered rest

def HoldOrdered : List (String × Value) → Prop
  | [] => True
  | (_, v) :: rest => IsOrdered v ∧ HoldOrdered rest

end

theorem int64?_toInt (i : Int64) : (Json.integer i.toInt).int64? = some i := by
  have hrange : (Int64.minValue.toInt ≤ i.toInt && i.toInt ≤ Int64.maxValue.toInt) = true := by
    rw [Bool.and_eq_true, decide_eq_true_iff, decide_eq_true_iff]
    exact ⟨Int64.le_toInt i, Int64.toInt_le i⟩
  rw [Json.int64?, if_pos hrange, Int64.ofInt_toInt]

/-! A document has the shape of a single kind, but for integers. They could be floats as well, and
are tried as integers first. -/

theorem ofJson?_integer {j : Int} {i : Int64} (h : (Json.integer j).int64? = some i) :
    ofJson? (.integer j) = some (int i) := by
  simp only [ofJson?, Json.unit?, Json.flag?, h, Option.map_none, Option.map_some, Option.none_or,
    Option.some_or]

theorem ofJson?_array (items : List Json) :
    ofJson? (.array items) = (itemsOfJson? items).map list := by
  simp only [ofJson?, Json.unit?, Json.flag?, Json.int64?, Json.double?, Json.text?,
    Option.map_none, Option.none_or, Option.or_none]

theorem ofJson?_object (members : List (String × Json)) :
    ofJson? (.object members) = (entriesOfJson? members).map ofEntries := by
  simp only [ofJson?, Json.unit?, Json.flag?, Json.int64?, Json.double?, Json.text?,
    Option.map_none, Option.none_or]

mutual

theorem ofJson?_toJson : ∀ v : Value, v.isExact = true → v.IsOrdered →
    ofJson? v.toJson = some v
  | null, _, _ | bool _, _, _ | string _, _, _ => rfl
  | int i, _, _ => ofJson?_integer (int64?_toInt i)
  | float _, h, _ => nomatch h
  | list items, h, hordered => by
    rw [toJson, ofJson?_array, itemsOfJson?_toJson items h hordered]
    rfl
  | map entries, h, hordered => by
    rw [toJson, ofJson?_object, entriesOfJson?_toJson entries h hordered.2, Option.map_some,
      ofEntries, Entries.sort_eq_self hordered.1]

theorem itemsOfJson?_toJson : ∀ items : List Value, areExact items = true → AreOrdered items →
    itemsOfJson? (itemsToJson items) = some items
  | [], _, _ => rfl
  | v :: rest, h, hordered => by
    rw [areExact, Bool.and_eq_true] at h
    rw [itemsToJson, itemsOfJson?, ofJson?_toJson v h.1 hordered.1,
      itemsOfJson?_toJson rest h.2 hordered.2]
    rfl

theorem entriesOfJson?_toJson : ∀ entries : List (String × Value), holdExact entries = true →
    HoldOrdered entries → entriesOfJson? (entriesToJson entries) = some entries
  | [], _, _ => rfl
  | (k, v) :: rest, h, hordered => by
    rw [holdExact, Bool.and_eq_true] at h
    rw [entriesToJson, entriesOfJson?, ofJson?_toJson v h.1 hordered.1,
      entriesOfJson?_toJson rest h.2 hordered.2]
    rfl

end

mutual

theorem isWhole_toJson : ∀ v : Value, v.isExact = true → v.toJson.isWhole = true
  | null, _ | bool _, _ | string _, _ => rfl
  | int i, _ => by
    have hlow := Int64.le_toInt i
    have hhigh := Int64.toInt_lt i
    rw [toJson, Json.isWhole, Bool.and_eq_true, decide_eq_true_iff, decide_eq_true_iff]
    unfold Json.minInteger Json.maxInteger
    omega
  | float _, h => nomatch h
  | list items, h => areWhole_itemsToJson items h
  | map entries, h => holdWhole_entriesToJson entries h

theorem areWhole_itemsToJson : ∀ items : List Value, areExact items = true →
    Json.areWhole (itemsToJson items) = true
  | [], _ => rfl
  | v :: rest, h => by
    rw [areExact, Bool.and_eq_true] at h
    rw [itemsToJson, Json.areWhole, isWhole_toJson v h.1, areWhole_itemsToJson rest h.2]
    rfl

theorem holdWhole_entriesToJson : ∀ entries : List (String × Value), holdExact entries = true →
    Json.holdWhole (entriesToJson entries) = true
  | [], _ => rfl
  | (k, v) :: rest, h => by
    rw [holdExact, Bool.and_eq_true] at h
    rw [entriesToJson, Json.holdWhole, isWhole_toJson v h.1, holdWhole_entriesToJson rest h.2]
    rfl

end

theorem renders {v : Value} (h : v.isExact = true) (hordered : v.IsOrdered) :
    v.toJson.Renders ofJson? v v.toJson.nesting :=
  ⟨ofJson?_toJson v h hordered, isWhole_toJson v h, Nat.le_refl _⟩

end Value

theorem Parameters.renders {p : Parameters} (h : Value.holdExact p.table.entries = true)
    (hordered : Value.HoldOrdered p.table.entries) :
    p.toJson.Renders ofJson? p p.toJson.nesting := by
  refine ⟨?_, Json.holdWhole_iff.2 (List.forall_mem_singleton.2 ?_), Nat.le_refl _⟩
  · show (Value.entriesOfJson? (Value.entriesToJson p.table.entries)).map Parameters.ofList =
      some p
    rw [Value.entriesOfJson?_toJson _ h hordered, Option.map_some, Parameters.ofList,
      Table.ofList_entries]
  · exact Value.holdWhole_entriesToJson p.table.entries h

/-! ## Settings and statements -/

theorem Settings.renders (s : Settings) : s.toJson.Renders ofJson? s 1 := by
  obtain ⟨placeholder, coverage, clauseCleanup⟩ := s
  cases placeholder <;> exact ⟨rfl, rfl, Nat.le_refl 1⟩

/-- The values in a statement hold no floats, its maps are in order and its coverage fits. -/
structure Statement.Fits (s : Statement) : Prop where
  exact : ∀ b ∈ s.binds, b.value.isExact = true
  ordered : ∀ b ∈ s.binds, b.value.IsOrdered
  coverage : ∀ c ∈ s.coverage, c.Fits

theorem BoundValue.renders {b : BoundValue} (h : b.value.isExact = true)
    (hordered : b.value.IsOrdered) : b.toJson.Renders ofJson? b b.toJson.nesting := by
  have hvalue := Value.renders h hordered
  refine ⟨?_, Json.holdWhole_iff.2 ?_, Nat.le_refl _⟩
  · show (do return ⟨b.name, ← Value.ofJson? b.value.toJson⟩ : Option BoundValue) = some b
    rw [hvalue.read]
    rfl
  · exact List.forall_mem_cons.2 ⟨rfl, List.forall_mem_singleton.2 hvalue.whole⟩

theorem Statement.renders {s : Statement} (h : s.Fits) :
    s.toJson.Renders ofJson? s s.toJson.nesting := by
  have hbinds : ∀ b ∈ s.binds, b.toJson.Renders BoundValue.ofJson? b b.toJson.nesting :=
    fun b hb => BoundValue.renders (h.exact b hb) (h.ordered b hb)
  have hcoverage : (Json.ofOption Coverage.toJson s.coverage).Renders
      (fun j => Json.optional? Coverage.ofJson? (some j)) s.coverage 2 :=
    .option (fun c hc => Coverage.renders (h.coverage c hc)) nofun
  refine ⟨?_, Json.holdWhole_iff.2 ?_, Nat.le_refl _⟩
  · show (do
      return ⟨s.sql, ← (s.binds.map BoundValue.toJson).mapM BoundValue.ofJson?,
        ← Json.optional? Coverage.ofJson? (some (Json.ofOption Coverage.toJson s.coverage))⟩ :
        Option Statement) = some s
    have hread := hcoverage.read
    rw [Json.mapM_map_eq_some fun b hb => (hbinds b hb).read, hread]
    rfl
  · refine List.forall_mem_cons.2 ⟨rfl, List.forall_mem_cons.2 ⟨?_,
      List.forall_mem_singleton.2 hcoverage.whole⟩⟩
    exact Json.areWhole_iff.2 (List.forall_mem_map.2 fun b hb => (hbinds b hb).whole)

/-! ## All data -/

namespace Json

/-- Reading the text that a format gives to a piece of data gives the data back. -/
def Restores (f : Format) {α : Type} (toJson : α → Json) (ofJson? : Json → Option α) (a : α) :
    Prop :=
  (f.parse? (f.write (toJson a))).bind ofJson? = some a

/-- Values without floats are restored from their text, whatever texts and integers stand in them,
if they are nested no deeper than documents may be; so are parameters and statements with such
values. Tokens, errors, coverage, reports and settings are never nested too deep. -/
theorem restores {f : Format} (hf : f.IsFaithful) :
    (∀ v : Value, v.isExact = true → v.IsOrdered → v.toJson.nesting ≤ maxNesting →
      Restores f Value.toJson Value.ofJson? v) ∧
    (∀ t : Token, t.position.Fits → Restores f Token.toJson (Token.ofJson? .text) t) ∧
    (∀ e : Error, e.Fits → Restores f Error.toJson (Error.ofJson? .text) e) ∧
    (∀ c : Coverage, c.Fits → Restores f Coverage.toJson Coverage.ofJson? c) ∧
    (∀ r : CoverageReport, r.Fits → Restores f CoverageReport.toJson CoverageReport.ofJson? r) ∧
    (∀ s : Settings, Restores f Settings.toJson Settings.ofJson? s) ∧
    (∀ p : Parameters, Value.holdExact p.table.entries = true →
      Value.HoldOrdered p.table.entries → p.toJson.nesting ≤ maxNesting →
      Restores f Parameters.toJson Parameters.ofJson? p) ∧
    ∀ s : Statement, s.Fits → s.toJson.nesting ≤ maxNesting →
      Restores f Statement.toJson Statement.ofJson? s := by
  refine ⟨fun v h hordered hdepth => ?_, fun t h => ?_, fun e h => ?_, fun c h => ?_,
    fun r h => ?_, fun s => ?_, fun p h hordered hdepth => ?_, fun s h hdepth => ?_⟩
  · exact (Value.renders h hordered).read_write hf hdepth
  · exact (Token.renders h).read_write hf (by decide)
  · exact (Error.renders h).read_write hf (by decide)
  · exact (Coverage.renders h).read_write hf (by decide)
  · exact (CoverageReport.renders h).read_write hf (by decide)
  · exact s.renders.read_write hf (by decide)
  · exact (Parameters.renders h hordered).read_write hf hdepth
  · exact (Statement.renders h).read_write hf hdepth

/-- A map with a quote in a key, the least integer, a line break and an empty map. -/
def mixedValue : Value :=
  .map [("a\"b", .list [.null, .bool true, .int Int64.minValue, .string "x\n"]), ("c", .map [])]

example : mixedValue.toJson.write =
    "\x7b\"a\\\"b\":[null,true,-9223372036854775808,\"x\\n\"],\"c\":\x7b\x7d\x7d" := by
  decide

theorem mixedValue_isOrdered : mixedValue.IsOrdered :=
  ⟨List.pairwise_pair.2 (by decide), ⟨trivial, trivial, trivial, trivial, trivial⟩,
    ⟨List.Pairwise.nil, trivial⟩, trivial⟩

def mixedParameters : Parameters := ⟨[("x", mixedValue)], List.pairwise_singleton _ _⟩

def mixedCoverage : Coverage := (Coverage.empty.record 12 .failed).record 3 .passed

def mixedReport : CoverageReport := ⟨[⟨⟨3, .ifThen, some "a", ⟨0, 1, 1⟩⟩, some .passed⟩]⟩

def mixedStatement : Statement := ⟨"a = ?", [⟨"x", mixedValue⟩], some mixedCoverage⟩

theorem restores_mixed :
    Format.compact.IsFaithful ∧
    Restores .compact Value.toJson Value.ofJson? mixedValue ∧
    Restores .compact Token.toJson (Token.ofJson? .text) ⟨.bind "id" true, ⟨3, 1, 4⟩⟩ ∧
    Restores .compact Error.toJson (Error.ofJson? .text)
      (.structural ⟨9, 2, 1⟩ (.tooDeep 64)) ∧
    Restores .compact Coverage.toJson Coverage.ofJson? mixedCoverage ∧
    Restores .compact CoverageReport.toJson CoverageReport.ofJson? mixedReport ∧
    Restores .compact Settings.toJson Settings.ofJson? ⟨.numbered, true, false⟩ ∧
    Restores .compact Parameters.toJson Parameters.ofJson? mixedParameters ∧
    Restores .compact Statement.toJson Statement.ofJson? mixedStatement := by
  obtain ⟨hvalue, htoken, herror, hcoverage, hreport, hsettings, hparameters, hstatement⟩ :=
    restores Format.compact_isFaithful
  have hposition (p : Position) (h : p.offset < 100 ∧ p.line < 100 ∧ p.column < 100) : p.Fits := by
    unfold Position.Fits maxInteger
    omega
  have hlimit : ((64 : Nat) : Int) ≤ maxInteger := by decide
  have hfits : mixedCoverage.Fits := by
    unfold Coverage.Fits
    decide
  refine ⟨Format.compact_isFaithful, hvalue _ rfl mixedValue_isOrdered (by decide),
    htoken _ (hposition _ (by decide)), herror _ ⟨hposition _ (by decide), hlimit⟩,
    hcoverage _ hfits, hreport _ ?_, hsettings _,
    hparameters _ rfl ⟨mixedValue_isOrdered, trivial⟩ (by decide), hstatement _ ?_ (by decide)⟩
  · exact List.forall_mem_singleton.2 ⟨by decide, hposition _ (by decide)⟩
  · refine ⟨List.forall_mem_singleton.2 rfl, List.forall_mem_singleton.2 mixedValue_isOrdered, ?_⟩
    intro c hc
    cases hc
    exact hfits

end Json

end TwoWaySql
