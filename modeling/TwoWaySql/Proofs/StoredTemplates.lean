import TwoWaySql.Encoding.Template
import TwoWaySql.Proofs.Encodings
import TwoWaySql.Renderer

/-!
# Stored templates

A template is stored as its name and its source. Its tree is not stored but read again, and it is
the same one: every template has the tree of its own source, wherever it comes from. So a template
and what is read from its text cannot be told apart, whatever the format, if it reads back
documents. What was recorded for one of them can be reported for the other (`Template.stored`).
-/

namespace TwoWaySql.Template

theorem renders_toJson (t : Template) :
    t.toJson.Renders parts? (t.name, t.source) 1 := by
  have hname : (Json.ofOption .string t.name).Renders
      (fun j => Json.optional? Json.text? (some j)) t.name 0 :=
    .option (fun s _ => .text s) nofun
  refine .object ?_ (List.forall_mem_cons.2
    ⟨hname.bounds, List.forall_mem_singleton.2 (Json.Renders.text t.source).bounds⟩)
  show (do
    return (← Json.optional? Json.text? (some (Json.ofOption .string t.name)), t.source) :
      Option (Option String × String)) = some (t.name, t.source)
  have hread := hname.read
  rw [hread]
  rfl

theorem eq_of_parse {name : Option String} {source : String} {t : Template}
    (h : parse name source = .ok t) : t.name = name ∧ t.source = source := by
  have htree := ofSource_of_parse h
  rw [parse_of_ofSource htree] at h
  have heq := Except.ok.inj h
  exact ⟨(congrArg Template.name heq).symm, (congrArg Template.source heq).symm⟩

/-- What is read from a document with a name and a source hangs on the source alone. -/
theorem ofJson_of_parts? {j : Json} {name : Option String} {source : String}
    (h : parts? j = some (name, source)) : ofJson j = (parse name source).mapError .unreadable := by
  unfold ofJson
  cases hparse : parse name source with
  | ok t => simp only [h, hparse, Except.mapError]
  | error e => simp only [h, hparse, Except.mapError]

/-- A template comes from a document with its name and its source, and has the tree of the
source. -/
theorem parts?_of_ofJson {j : Json} {t : Template} (h : ofJson j = .ok t) :
    parts? j = some (t.name, t.source) := by
  cases hparts : parts? j with
  | none =>
    unfold ofJson at h
    rw [hparts] at h
    cases h
  | some parts =>
    obtain ⟨name, source⟩ := parts
    rw [ofJson_of_parts? hparts] at h
    cases hparse : parse name source with
    | error e =>
      rw [hparse] at h
      cases h
    | ok found =>
      rw [hparse] at h
      cases h
      obtain ⟨hname, hsource⟩ := eq_of_parse hparse
      rw [hname, hsource]

/-- A template is the one of its own source, whether it was read from a source or from a document.
Its text is read as the template itself, with the same branches and the same runs. A document with a
source that cannot be read is refused, with the error of the source in the message. -/
theorem stored {f : Json.Format} (hf : f.IsFaithful) :
    (∀ name source t, parse name source = .ok t →
      t.name = name ∧ t.source = source ∧ Tree.ofItems (Token.scan source).items = .ok t.tree) ∧
    (∀ j t, ofJson j = .ok t → parts? j = some (t.name, t.source) ∧
      Tree.ofItems (Token.scan t.source).items = .ok t.tree) ∧
    (∀ t : Template, (f.parse? (f.write t.toJson)).map ofJson = some (.ok t)) ∧
    (∀ t u : Template, (f.parse? (f.write t.toJson)).map ofJson = some (.ok u) →
      u.tree = t.tree ∧ u.branches = t.branches ∧ (∀ c, u.coverageReport c = t.coverageReport c) ∧
      ∀ (r : Renderer) (recorded : Bool) (l : Lookup), r.run recorded u l = r.run recorded t l) ∧
    ∀ j name source e, parts? j = some (name, source) →
      Tree.ofItems (Token.scan source).items = .error e →
      ∃ fault : TemplateFault, ofJson j = .error fault ∧
        fault.message? = some ("Failed to parse template: " ++ e.message) := by
  have hread (t : Template) : (f.parse? (f.write t.toJson)).map ofJson = some (.ok t) := by
    have hrenders := t.renders_toJson
    have hself := ofJson_of_parts? hrenders.read
    rw [parse_of_ofSource t.ofSource_source] at hself
    rw [hf.parse?_write hrenders.whole (Nat.le_trans hrenders.nesting_le (by decide)),
      Option.map_some, hself]
    rfl
  refine ⟨fun name source t h => ?_, fun j t h => ?_, hread, fun t u h => ?_,
    fun j name source e hparts he => ?_⟩
  · obtain ⟨hname, hsource⟩ := eq_of_parse h
    exact ⟨hname, hsource, ofSource_of_parse h⟩
  · exact ⟨parts?_of_ofJson h, t.ofSource_source⟩
  · rw [hread t] at h
    cases h
    exact ⟨rfl, rfl, fun _ => rfl, fun _ _ _ => rfl⟩
  · have herror : parse name source = .error e := parse_of_error he name
    refine ⟨.unreadable e, ?_, rfl⟩
    rw [ofJson_of_parts? hparts, herror]
    rfl

/-- A template with a name and a branch. -/
def flagged : Template where
  name := some "flagged"
  source := "a/*IF b*/ \"c\"/*END*/"
  tree := ⟨[.text "a", .chain "b" ⟨1, 1, 2⟩ [.text " \"c\""] .done]⟩
  ofSource_source := by with_unfolding_all rfl

theorem stored_flagged :
    Json.Format.compact.IsFaithful ∧
    (∃ u, (Json.parse? flagged.toJson.write).map ofJson = some (.ok u) ∧ u.tree = flagged.tree ∧
      u.branches = flagged.branches) ∧
    flagged.name = some "flagged" ∧
    ∃ fault : TemplateFault,
      ofJson (.object [("name", .null), ("source", .string "/*IF a*/")]) = .error fault ∧
      fault.message? = some ("Failed to parse template: Structural error at line 1, column 1: " ++
        "unterminated directive /*IF*/ (expected /*END*/)") := by
  obtain ⟨hparsed, -, hread, hsame, hrefused⟩ := stored Json.Format.compact_isFaithful
  have hflagged := hsame flagged flagged (hread flagged)
  have hopen : Tree.ofItems (Token.scan "/*IF a*/").items =
      .error (.structural ⟨0, 1, 1⟩ (.unterminated "IF")) := by with_unfolding_all rfl
  exact ⟨Json.Format.compact_isFaithful, ⟨flagged, hread flagged, hflagged.1, hflagged.2.1⟩,
    (hparsed _ _ flagged (parse_of_ofSource flagged.ofSource_source _)).1,
    hrefused _ none "/*IF a*/" _ rfl hopen⟩

end TwoWaySql.Template
