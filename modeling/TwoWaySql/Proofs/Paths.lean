import TwoWaySql.Proofs.Comparisons

/-!
# Where dotted paths lead

A lookup that follows paths in the provided way cuts a path at its dots. What it finds can be said
without cutting any text: a path is put together from a name and segments, and each segment leads
from a value to one of its parts, to nothing or to a fault (`Value.Leads`, one rule for each kind of
value). This file

1. says where segments lead (`Value.Leads`, `Lookup.Leads`), and shows that descending follows these
   rules (`Value.descend_eq_iff`);
2. shows that a path falls into the segments that it is put together from
   (`Text.segments_intercalate`), and what a path behind another one leads to
   (`Lookup.follow?_behind`);
3. says which values stand inside a value (`Value.Holds`);
4. concludes that a path leads where its segments lead, that what lies behind a path hangs on the
   value at its end only, and that every value inside a parameter can be reached
   (`Lookup.path_leads`).
-/

namespace TwoWaySql

/-! ## Rules for segments -/

namespace Value

/-- Whether a value has no parts: it is a boolean, a number or a text. -/
def isScalar : Value → Bool
  | bool _ | int _ | float _ | string _ => true
  | null | list _ | map _ => false

/-- A segment names an index if it is a number in digits, with or without a plus sign in front, that
is no greater than the greatest index. -/
def NamesIndex (segment : String) (i : Nat) : Prop :=
  ∃ digits : List Char, (segment.toList = digits ∨ segment.toList = '+' :: digits) ∧
    digits ≠ [] ∧ (∀ c ∈ digits, c.isDigit = true) ∧ Decimal.ofDigits digits = i ∧ i ≤ maxIndex

/-- Where segments lead from a value: to a value, to nothing or to a fault. -/
inductive Leads : Value → List String → Except PathFault (Option Value) → Prop where
  | here (v : Value) : Leads v [] (.ok (some v))
  | null (segment : String) (segments : List String) : Leads null (segment :: segments) (.ok none)
  | entry {entries : List (String × Value)} {key : String} {v : Value} {segments : List String}
      {r : Except PathFault (Option Value)} (h : entries.lookup key = some v)
      (hrest : Leads v segments r) : Leads (map entries) (key :: segments) r
  | noEntry {entries : List (String × Value)} {key : String} (h : entries.lookup key = none)
      (segments : List String) : Leads (map entries) (key :: segments) (.ok none)
  | item {items : List Value} {segment : String} {i : Nat} {v : Value} {segments : List String}
      {r : Except PathFault (Option Value)} (hindex : NamesIndex segment i) (h : items[i]? = some v)
      (hrest : Leads v segments r) : Leads (list items) (segment :: segments) r
  | noItem {items : List Value} {segment : String} {i : Nat} (hindex : NamesIndex segment i)
      (h : items.length ≤ i) (segments : List String) :
      Leads (list items) (segment :: segments) (.ok none)
  | noIndex {segment : String} (h : ∀ i, ¬ NamesIndex segment i) (items : List Value)
      (segments : List String) :
      Leads (list items) (segment :: segments) (.error (.notAnIndex segment))
  | noParts {v : Value} (h : v.isScalar = true) (segment : String) (segments : List String) :
      Leads v (segment :: segments) (.error (.noParts segment v.typeName))

theorem index?_eq_some_iff {segment : String} {i : Nat} :
    index? segment.toList = some i ↔ NamesIndex segment i := by
  have hread (digits : List Char) :
      (if !digits.isEmpty && digits.all Char.isDigit && decide (Decimal.ofDigits digits ≤ maxIndex)
        then some (Decimal.ofDigits digits) else none) = some i ↔
      digits ≠ [] ∧ (∀ c ∈ digits, c.isDigit = true) ∧ Decimal.ofDigits digits = i ∧
        i ≤ maxIndex := by
    simp only [Option.ite_none_right_eq_some, Bool.and_eq_true, Bool.not_eq_true',
      List.isEmpty_eq_false_iff, List.all_eq_true, decide_eq_true_eq, Option.some.injEq]
    constructor
    · rintro ⟨⟨⟨hne, hall⟩, hmax⟩, rfl⟩
      exact ⟨hne, hall, rfl, hmax⟩
    · rintro ⟨hne, hall, rfl, hmax⟩
      exact ⟨⟨⟨hne, hall⟩, hmax⟩, rfl⟩
  unfold index? NamesIndex
  split
  · next rest heq =>
    rw [hread, heq]
    constructor
    · intro h
      exact ⟨rest, .inr rfl, h⟩
    · rintro ⟨digits, rfl | hcons, h⟩
      · -- a plus sign is no digit
        cases h.2.1 '+' List.mem_cons_self
      · rwa [(List.cons.inj hcons).2]
  · next hsign =>
    rw [hread]
    constructor
    · intro h
      exact ⟨segment.toList, .inl rfl, h⟩
    · rintro ⟨digits, hdigits | hcons, h⟩
      · rwa [hdigits]
      · exact absurd hcons (hsign digits)

theorem find?_eq_lookup (key : String) (entries : List (String × Value)) :
    Entries.find? key entries = entries.lookup key := by
  induction entries with
  | nil => rfl
  | cons e rest ih =>
    obtain ⟨k, v⟩ := e
    simp only [Entries.find?, List.lookup_cons, ih, Std.LawfulEqCmp.compare_eq_iff_eq]
    by_cases hk : key = k
    · simp [hk]
    · have hne : (key == k) = false := beq_eq_false_iff_ne.2 hk
      simp [hk, hne]

section

variable (segment : String)

theorem part?_map (entries : List (String × Value)) :
    (map entries).part? segment.toList = .ok (entries.lookup segment) := by
  rw [part?, String.ofList_toList, find?_eq_lookup]

theorem part?_scalar {v : Value} (h : v.isScalar = true) :
    v.part? segment.toList = .error (.noParts segment v.typeName) := by
  cases v with
  | null | list items | map entries => cases h
  | _ => simp [part?]

variable {segment}

theorem part?_item {i : Nat} (h : NamesIndex segment i) (items : List Value) :
    (list items).part? segment.toList = .ok items[i]? := by
  rw [part?, index?_eq_some_iff.2 h]

theorem part?_noIndex (h : ∀ i, ¬ NamesIndex segment i) (items : List Value) :
    (list items).part? segment.toList = .error (.notAnIndex segment) := by
  have hnone : index? segment.toList = none := by
    rw [Option.eq_none_iff_forall_ne_some]
    exact fun i hi => h i (index?_eq_some_iff.1 hi)
  rw [part?, hnone, String.ofList_toList]

end

/-- Descending leads where the rules lead. -/
theorem leads_descend (v : Value) (segments : List String) :
    v.Leads segments (v.descend (segments.map String.toList)) := by
  induction segments generalizing v with
  | nil => exact .here v
  | cons segment segments ih =>
    rw [List.map_cons, descend]
    cases v with
    | null => exact .null segment segments
    | map entries =>
      rw [part?_map]
      cases h : entries.lookup segment with
      | none => exact .noEntry h segments
      | some v => exact .entry h (ih v)
    | list items =>
      by_cases hindex : ∃ i, NamesIndex segment i
      · obtain ⟨i, hi⟩ := hindex
        rw [part?_item hi]
        cases h : items[i]? with
        | none => exact .noItem hi (List.getElem?_eq_none_iff.1 h) segments
        | some v => exact .item hi h (ih v)
      · rw [not_exists] at hindex
        rw [part?_noIndex hindex]
        exact .noIndex hindex items segments
    | _ =>
      rw [part?_scalar segment rfl]
      exact .noParts rfl segment segments

/-- The rules lead to one place only. -/
theorem Leads.descend_eq {v : Value} {segments : List String}
    {r : Except PathFault (Option Value)} (h : v.Leads segments r) :
    v.descend (segments.map String.toList) = r := by
  induction h with
  | here v => rfl
  | null segment segments => rfl
  | entry h hrest ih =>
    rw [List.map_cons, descend, part?_map, h]
    exact ih
  | noEntry h segments => rw [List.map_cons, descend, part?_map, h]
  | item hindex h hrest ih =>
    rw [List.map_cons, descend, part?_item hindex, h]
    exact ih
  | noItem hindex h segments =>
    rw [List.map_cons, descend, part?_item hindex, List.getElem?_eq_none h]
  | noIndex h items segments => rw [List.map_cons, descend, part?_noIndex h]
  | noParts h segment segments => rw [List.map_cons, descend, part?_scalar segment h]

theorem descend_eq_iff {v : Value} {segments : List String}
    {r : Except PathFault (Option Value)} :
    v.descend (segments.map String.toList) = r ↔ v.Leads segments r :=
  ⟨fun h => h ▸ leads_descend v segments, Leads.descend_eq⟩

/-- A descent that ends early ends in the same way with more segments behind it. -/
theorem descend_append_of_ne {v : Value} {segments : List (List Char)}
    (h : ∀ w, v.descend segments ≠ .ok (some w)) (rest : List (List Char)) :
    v.descend (segments ++ rest) = v.descend segments := by
  induction segments generalizing v with
  | nil => exact absurd rfl (h v)
  | cons segment segments ih =>
    rw [descend] at h
    rw [List.cons_append, descend, descend]
    split
    · rfl
    · rfl
    · next w hpart =>
      rw [hpart] at h
      exact ih h

end Value

/-- Where a name and the segments behind it lead. -/
inductive Lookup.Leads (get? : String → Option Value) (head : String) (segments : List String) :
    Except PathFault (Option Value) → Prop where
  | absent (h : get? head = none) : Leads get? head segments (.ok none)
  | present {v : Value} {r : Except PathFault (Option Value)} (h : get? head = some v)
      (hrest : v.Leads segments r) : Leads get? head segments r

/-! ## Paths and their segments -/

theorem Text.segments_intercalate {head : String} {segments : List String}
    (hhead : '.' ∉ head.toList) (hsegments : ∀ s ∈ segments, '.' ∉ s.toList) :
    Text.segments '.' (".".intercalate (head :: segments)).toList =
      head.toList :: segments.map String.toList := by
  induction segments generalizing head with
  | nil => rw [String.intercalate_singleton, segments_eq hhead, List.map_nil]
  | cons next segments ih =>
    obtain ⟨hnext, hsegments⟩ := List.forall_mem_cons.1 hsegments
    have hdot : ".".toList = ['.'] := rfl
    rw [String.intercalate_cons_cons, String.toList_append, String.toList_append, hdot,
      List.append_assoc, List.singleton_append, segments_append, segments_eq hhead,
      ih hnext hsegments, List.singleton_append, List.map_cons]

theorem Text.push_intercalate (first head : String) (segments : List String) :
    ".".intercalate ((first ++ head) :: segments) =
      first ++ ".".intercalate (head :: segments) := by
  cases segments with
  | nil => rw [String.intercalate_singleton, String.intercalate_singleton]
  | cons next segments =>
    simp only [String.intercalate_cons_cons, String.append_assoc]

/-- Every path is put together from a name and segments without dots. -/
theorem Text.exists_segments (path : String) :
    ∃ head segments, path = ".".intercalate (head :: segments) ∧
      ∀ s ∈ head :: segments, '.' ∉ s.toList := by
  rw [← String.ofList_toList (s := path)]
  induction path.toList with
  | nil => exact ⟨"", [], by rw [String.intercalate_singleton, String.ofList_nil], by simp⟩
  | cons c rest ih =>
    obtain ⟨head, segments, hpath, hsegments⟩ := ih
    rw [← List.singleton_append, String.ofList_append, hpath]
    by_cases hc : c = '.'
    · refine ⟨"", head :: segments, ?_, List.forall_mem_cons.2 ⟨by simp, hsegments⟩⟩
      rw [String.intercalate_cons_cons, String.empty_append, hc]
    · obtain ⟨hhead, hsegments⟩ := List.forall_mem_cons.1 hsegments
      refine ⟨String.ofList [c] ++ head, segments, ?_, List.forall_mem_cons.2 ⟨?_, hsegments⟩⟩
      · rw [push_intercalate]
      · rw [String.toList_append, String.toList_ofList, List.singleton_append, List.mem_cons,
          not_or]
        exact ⟨Ne.symm hc, hhead⟩

namespace Lookup

variable {get? : String → Option Value}

theorem follow?_eq_iff {head : String} {segments : List String} (hhead : '.' ∉ head.toList)
    (hsegments : ∀ s ∈ segments, '.' ∉ s.toList) {r : Except PathFault (Option Value)} :
    follow? get? (".".intercalate (head :: segments)) = r ↔ Leads get? head segments r := by
  rw [follow?, Text.segments_intercalate hhead hsegments]
  simp only [String.ofList_toList]
  cases h : get? head with
  | none =>
    constructor
    · rintro rfl
      exact .absent h
    · rintro (_ | ⟨hpresent, -⟩)
      · rfl
      · cases h.symm.trans hpresent
  | some v =>
    simp only [Value.descend_eq_iff]
    constructor
    · exact .present h
    · rintro (habsent | ⟨hpresent, hrest⟩)
      · cases h.symm.trans habsent
      · cases h.symm.trans hpresent
        exact hrest

/-- Behind a path that leads to a value the descent goes on from that value, and a path that leads
to nothing or to a fault does so with any segments behind it. -/
theorem follow?_behind (p : String) {head : String} {segments : List String}
    (hsegments : ∀ s ∈ head :: segments, '.' ∉ s.toList) :
    (∀ v, follow? get? p = .ok (some v) →
      follow? get? (p ++ "." ++ ".".intercalate (head :: segments)) =
        v.descend ((head :: segments).map String.toList)) ∧
    ((∀ v, follow? get? p ≠ .ok (some v)) →
      follow? get? (p ++ "." ++ ".".intercalate (head :: segments)) = follow? get? p) := by
  have hbehind : Text.segments '.' (p ++ "." ++ ".".intercalate (head :: segments)).toList =
      Text.segments '.' p.toList ++ (head :: segments).map String.toList := by
    obtain ⟨hhead, hsegments⟩ := List.forall_mem_cons.1 hsegments
    have hdot : ".".toList = ['.'] := rfl
    rw [String.toList_append, String.toList_append, hdot, List.append_assoc,
      List.singleton_append, Text.segments_append, Text.segments_intercalate hhead hsegments,
      List.map_cons]
  obtain ⟨first, rest, hparts⟩ :=
    List.exists_cons_of_ne_nil (Text.segments_ne_nil '.' p.toList)
  simp only [follow?, hbehind, hparts, List.cons_append]
  cases get? (String.ofList first) with
  | none =>
    refine ⟨fun w hw => ?_, fun _ => rfl⟩
    cases hw
  | some v =>
    refine ⟨fun w hw => ?_, fun h => ?_⟩
    · exact Value.descend_append hw _
    · exact Value.descend_append_of_ne h _

end Lookup

/-! ## Values inside values -/

/-- A value stands inside another one, behind entries whose keys have no dots and items of which the
segments are the indices in digits. -/
inductive Value.Holds : Value → List String → Value → Prop where
  | self (v : Value) : Holds v [] v
  | entry {entries : List (String × Value)} {key : String} {v w : Value} {segments : List String}
      (hentries : Ascending entries) (h : (key, v) ∈ entries) (hkey : '.' ∉ key.toList)
      (hrest : Holds v segments w) : Holds (map entries) (key :: segments) w
  | item {items : List Value} {i : Nat} {v w : Value} {segments : List String}
      (hi : i ≤ maxIndex) (h : items[i]? = some v) (hrest : Holds v segments w) :
      Holds (list items) (String.ofList (Decimal.digitsOf i) :: segments) w

namespace Value.Holds

variable {v w : Value} {segments : List String}

theorem leads (h : v.Holds segments w) : v.Leads segments (.ok (some w)) := by
  induction h with
  | self v => exact .here v
  | entry hentries h hkey hrest ih =>
    rw [← hentries.find?_eq_some_iff, find?_eq_lookup] at h
    exact .entry h ih
  | item hi h hrest ih =>
    refine .item (index?_eq_some_iff.1 ?_) h ih
    rw [String.toList_ofList]
    exact index?_digitsOf hi

theorem dot_not_mem (h : v.Holds segments w) : ∀ s ∈ segments, '.' ∉ s.toList := by
  induction h with
  | self v => exact List.forall_mem_nil _
  | entry hentries h hkey hrest ih => exact List.forall_mem_cons.2 ⟨hkey, ih⟩
  | @item items i v w segments hi h hrest ih =>
    refine List.forall_mem_cons.2 ⟨?_, ih⟩
    rw [String.toList_ofList]
    exact Name.dot_not_mem_of_isSegment (Expr.isSegment_digitsOf i)

end Value.Holds

namespace Lookup

/-- In a lookup that follows paths in the provided way, a path leads where its name and its segments
lead. What a path behind another one leads to hangs on what that one leads to only, and every value
inside a parameter is found at the end of its path. -/
theorem path_leads (has : String → Bool) (get? : String → Option Value) :
    let l := ofValues has get?
    (∀ head segments r, '.' ∉ head.toList → (∀ s ∈ segments, '.' ∉ s.toList) →
      (l.path? (".".intercalate (head :: segments)) = r ↔ Leads get? head segments r)) ∧
    (∀ p q, ∃ head segments, q = ".".intercalate (head :: segments) ∧
      (∀ s ∈ head :: segments, '.' ∉ s.toList) ∧
      (∀ v r, l.path? p = .ok (some v) →
        (l.path? (p ++ "." ++ q) = r ↔ v.Leads (head :: segments) r)) ∧
      ((∀ v, l.path? p ≠ .ok (some v)) → l.path? (p ++ "." ++ q) = l.path? p)) ∧
    ∀ head segments v w, '.' ∉ head.toList → get? head = some v → v.Holds segments w →
      l.path? (".".intercalate (head :: segments)) = .ok (some w) := by
  intro l
  refine ⟨fun head segments r hhead hsegments => follow?_eq_iff hhead hsegments,
    fun p q => ?_, fun head segments v w hhead hget h => ?_⟩
  · obtain ⟨head, segments, rfl, hsegments⟩ := Text.exists_segments q
    obtain ⟨hpresent, hother⟩ := follow?_behind p hsegments
    refine ⟨head, segments, rfl, hsegments, fun v r hv => ?_, hother⟩
    show follow? get? _ = r ↔ _
    rw [hpresent v hv]
    exact Value.descend_eq_iff
  · exact (follow?_eq_iff hhead h.dot_not_mem).2 (.present hget h.leads)

/-- A user with a name and two tags, of which the second one is a map. -/
def user : Value :=
  .map [("name", .string "ann"), ("tags", .list [.string "x", .map [("id", .null)]])]

theorem path_leads_user :
    let l := (Parameters.ofList [("user", user)]).lookup
    l.path? "user.tags.+1.id" = .ok (some .null) ∧ l.path? "user.tags.1.id.a.b" = .ok none ∧
      l.path? "user.tags.one" = .error (.notAnIndex "one") ∧
      l.path? "user.name.a" = .error (.noParts "a" "string") ∧
      l.path? "user.tags.1" = .ok (some (.map [("id", .null)])) ∧
      l.path? ("user.mail" ++ "." ++ "host.0") = .ok none := by
  intro l
  obtain ⟨hleads, hbehind, hholds⟩ := path_leads (Parameters.ofList [("user", user)]).contains
    (Parameters.ofList [("user", user)]).get?
  have hhead : '.' ∉ "user".toList := by decide
  have hone : Value.NamesIndex "+1" 1 :=
    ⟨['1'], .inr rfl, List.cons_ne_nil _ _, List.forall_mem_singleton.2 rfl, rfl, by decide⟩
  have hzero : Value.NamesIndex "1" 1 :=
    ⟨['1'], .inl rfl, List.cons_ne_nil _ _, List.forall_mem_singleton.2 rfl, rfl, by decide⟩
  have hword : ∀ i, ¬ Value.NamesIndex "one" i := by
    intro i h
    cases Value.index?_eq_some_iff.2 h
  have hkeys : Ascending [("name", Value.string "ann"),
      ("tags", Value.list [.string "x", .map [("id", .null)]])] :=
    List.pairwise_pair.2 (by decide)
  have hsecond : user.Holds ["tags", "1"] (.map [("id", .null)]) :=
    .entry hkeys (List.mem_cons_of_mem _ List.mem_cons_self) (by decide)
      (.item (i := 1) (by decide) rfl (.self _))
  have htag : l.path? "user.tags.1" = .ok (some (.map [("id", .null)])) :=
    hholds "user" ["tags", "1"] user _ hhead rfl hsecond
  have hid : l.path? "user.tags.+1.id" = .ok (some .null) :=
    (hleads "user" ["tags", "+1", "id"] _ hhead (by decide)).2
      (.present rfl (.entry rfl (.item hone rfl (.entry rfl (.here .null)))))
  have hnull : l.path? "user.tags.1.id.a.b" = .ok none :=
    (hleads "user" ["tags", "1", "id", "a", "b"] _ hhead (by decide)).2
      (.present rfl (.entry rfl (.item hzero rfl (.entry rfl (.null "a" ["b"])))))
  have hindex : l.path? "user.tags.one" = .error (.notAnIndex "one") :=
    (hleads "user" ["tags", "one"] _ hhead (by decide)).2
      (.present rfl (.entry rfl (.noIndex hword _ _)))
  have hscalar : l.path? "user.name.a" = .error (.noParts "a" "string") :=
    (hleads "user" ["name", "a"] _ hhead (by decide)).2
      (.present rfl (.entry rfl (.noParts rfl "a" [])))
  have hnobody : l.path? "user.mail" = .ok none :=
    (hleads "user" ["mail"] _ hhead (by decide)).2 (.present rfl (.noEntry rfl []))
  obtain ⟨-, -, -, -, -, hafter⟩ := hbehind "user.mail" "host.0"
  have hlost := hafter fun v hv => nomatch hnobody.symm.trans hv
  exact ⟨hid, hnull, hindex, hscalar, htag, hlost.trans hnobody⟩

end Lookup

end TwoWaySql
