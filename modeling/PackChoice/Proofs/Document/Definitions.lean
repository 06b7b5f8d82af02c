import PackChoice.Document.Text
import PackChoice.Proofs.Document.Conditions
import PackChoice.Proofs.Document.Packs
import PackChoice.Proofs.Json.Written

/-!
Definitions in documents. Whatever document a definition was read from, it is written as a document
from which the same definition is read, and which the schema admits if it admitted the first one
(`Definition.roundTrip_of_ofText`). The first part rests on the expressions of packs, which are got
back from their texts (`Definition.isParsed_of_ofJson`); the second on names, which are not empty in
a document that the schema admits (`Definition.Filled`).
-/

namespace PackChoice

open Document

variable {v : Json} {name : String}

theorem Document.convert_eq_ok_iff {α : Type} {read : Json → Reading α} {a : α} :
    convert read v = .ok a ↔ read v = .ok a := by
  unfold convert
  cases read v <;> simp

/-! ## Requirements -/

namespace Requirement

variable {q : Requirement}

theorem toJson_eq (q : Requirement) : q.toJson =
    .object [("condition", .string q.condition), ("message", .string q.message)] := by
  simp [toJson, Json.ofMembers, Sorted.ofList, Sorted.insert, Text.precedes, Text.charsPrecede]

theorem ofJson_toJson (q : Requirement) : ofJson q.toJson = .ok q := by
  rw [toJson_eq, ofJson, Layout.read_object_eq_ok_iff]
  constructor
  · rfl
  · simp [layout]

theorem isRequirement_toJson (h : q.condition ≠ "") : Schema.isRequirement q.toJson = true := by
  rw [toJson_eq]
  simp [Schema.isRequirement, Schema.isObject, Schema.isString, isFilled_string h]

theorem put_ok (q : Requirement)
    (ht : ∃ t ∈ [("condition", Schema.isFilled), ("message", Schema.isString)],
      t.1 = name ∧ t.2 v = true) :
    ∃ q', q.put name v = .ok q' ∧ (name = "condition" → q'.condition ≠ "") ∧
      (name ≠ "condition" → q'.condition = q.condition) := by
  obtain ⟨t, ht, rfl, htest⟩ := ht
  simp only [List.mem_cons, List.not_mem_nil, or_false] at ht
  rcases ht with rfl | rfl
  · obtain ⟨s, hs, rfl⟩ := exists_of_isFilled htest
    exact ⟨_, rfl, fun _ => hs, fun hne => absurd rfl hne⟩
  · obtain ⟨s, rfl⟩ := exists_of_isString htest
    exact ⟨_, rfl, fun he => absurd he (by decide), fun _ => rfl⟩

theorem ofJson_ok_of_isRequirement (h : Schema.isRequirement v = true) :
    ∃ q, ofJson v = .ok q ∧ q.condition ≠ "" := by
  obtain ⟨members, rfl, hreq, htests⟩ := exists_of_isObject h
  have hput : ∀ m ∈ members, ∀ q : Requirement, ∃ q', q.put m.1 m.2 = .ok q' :=
    fun m hm q => (q.put_ok (htests m hm)).imp fun _ h => h.1
  obtain ⟨q, hread⟩ : ∃ q, layout.read put ⟨"", ""⟩ (.object members) = .ok q :=
    layout.read_ok _ hput hreq (by simp [layout])
  refine ⟨q, hread, Layout.read_brings (P := fun q => q.condition ≠ "")
    (hreq "condition" List.mem_cons_self) ?_ ?_ hread⟩
  · intro m hm hname q q' hput
    exact (of_exists_ok (q.put_ok (htests m hm)) hput).1 hname
  · intro m hm hname q q' hq hput
    rw [(of_exists_ok (q.put_ok (htests m hm)) hput).2 hname]
    exact hq

end Requirement

namespace Definition

variable {d d' : Definition}

/-! ## Written definitions -/

theorem toJson_eq (d : Definition) : d.toJson = .object
    [("conditions", .object (d.conditions.toList.map fun e => (e.1, e.2.toJson))),
      ("packs", .array (d.packs.map Pack.toJson)),
      ("requirements", .array (d.requirements.map Requirement.toJson)),
      ("variables", d.vars.toJson)] := by
  simp [toJson, Json.ofMembers, Sorted.ofList, Sorted.insert, Text.precedes, Text.charsPrecede]

theorem ofJson_toJson (h : ∀ p ∈ d.packs, p.IsParsed) : ofJson d.toJson = .ok d := by
  have hconditions : readMap (Condition.ofJson false)
      (.object (d.conditions.toList.map fun e => (e.1, e.2.toJson))) = .ok d.conditions :=
    readMap_map fun e _ => e.2.ofJson_toJson false
  have hpacks : readList Pack.ofJson (.array (d.packs.map Pack.toJson)) = .ok d.packs :=
    readList_map fun p hp => Pack.ofJson_toJson (h p hp)
  have hrequirements : readList Requirement.ofJson
      (.array (d.requirements.map Requirement.toJson)) = .ok d.requirements :=
    readList_map fun q _ => q.ofJson_toJson
  have hvars : Variables.ofJson d.vars.toJson = .ok d.vars := readMap_map fun _ _ => rfl
  rw [toJson_eq, ofJson, Layout.read_object_eq_ok_iff]
  constructor
  · simp only [List.foldlM_cons, List.foldlM_nil, put, hconditions, hpacks, hrequirements, hvars,
      bind, Except.bind, pure, Except.pure]
  · simp [layout]

theorem packs_put (h : put d name v = .ok d') :
    readList Pack.ofJson v = .ok d'.packs ∨ d'.packs = d.packs := by
  unfold put at h
  split at h
  case h_1 =>
    obtain ⟨packs, hpacks, h⟩ := bind_eq_ok_iff.1 h
    cases h
    exact .inl hpacks
  case h_5 =>
    cases h
    exact .inr rfl
  all_goals
    obtain ⟨x, -, h⟩ := bind_eq_ok_iff.1 h
    cases h
    exact .inr rfl

theorem isParsed_of_ofJson (h : ofJson v = .ok d) : ∀ p ∈ d.packs, p.IsParsed := by
  refine Layout.read_keeps (P := fun d => ∀ p ∈ d.packs, p.IsParsed) ?_
    (fun p hp => absurd hp List.not_mem_nil) h
  intro name v d d' hd hput p hp
  rcases packs_put hput with hpacks | hpacks
  · obtain ⟨items, rfl, hitems⟩ := readList_eq_ok hpacks
    obtain ⟨item, -, hitem⟩ := (mem_of_mapM_eq_ok hitems).1 hp
    exact Pack.isParsed_of_ofJson hitem
  · exact hd p (hpacks ▸ hp)

/-! ## Definitions that the schema admits -/

/-- Whether none of the names in a definition is empty, nor the text of any requirement. -/
structure Filled (d : Definition) : Prop where
  packs : ∀ p ∈ d.packs, p.name ≠ "" ∧ p.Filled
  conditions : ∀ e ∈ d.conditions.toList, "" ∉ e.2.references
  requirements : ∀ q ∈ d.requirements, q.condition ≠ ""

/-- What the schema asks of the members of a definition. -/
def tests : List (String × (Json → Bool)) :=
  [("packs", Schema.isArrayOf Schema.isPack), ("conditions", Schema.isMapOf Schema.isCondition),
    ("requirements", Schema.isArrayOf Schema.isRequirement),
    ("variables", Schema.isMapOf Schema.isString)]

theorem isDefinition_eq : Schema.isDefinition = Schema.isObject ["packs"] tests := rfl

theorem put_ok (d : Definition) (ht : ∃ t ∈ tests, t.1 = name ∧ t.2 v = true)
    (hpacks : name = "packs" → ∃ packs, readList Pack.ofJson v = .ok packs) :
    ∃ d', d.put name v = .ok d' ∧ (d.Filled → d'.Filled) := by
  obtain ⟨t, ht, rfl, htest⟩ := ht
  simp only [tests, List.mem_cons, List.not_mem_nil, or_false] at ht
  rcases ht with rfl | rfl | rfl | rfl
  · obtain ⟨packs, hr⟩ := hpacks rfl
    refine ⟨_, bind_eq_ok_iff.2 ⟨packs, hr, rfl⟩, fun h => { h with packs := fun p hp => ?_ }⟩
    obtain ⟨items, rfl, hitems⟩ := readList_eq_ok hr
    obtain ⟨item, hi, hitem⟩ := (mem_of_mapM_eq_ok hitems).1 hp
    exact Pack.filled_of_ofJson (List.all_eq_true.1 htest item hi) hitem
  · have hread : ∀ item, Schema.isCondition item = true →
        ∃ c, Condition.ofJson false item = .ok c ∧ "" ∉ c.references :=
      fun item hi => Condition.ofJson_ok_of_isCondition hi false
    obtain ⟨conditions, hr, hrefs⟩ := readMap_ok hread htest
    exact ⟨_, bind_eq_ok_iff.2 ⟨conditions, hr, rfl⟩, fun h => { h with conditions := hrefs }⟩
  · obtain ⟨requirements, hr, hne⟩ :=
      readList_ok (fun item => Requirement.ofJson_ok_of_isRequirement) htest
    exact ⟨_, bind_eq_ok_iff.2 ⟨requirements, hr, rfl⟩, fun h => { h with requirements := hne }⟩
  · have hread : ∀ item, Schema.isString item = true → ∃ s, readString item = .ok s ∧ True := by
      intro item hi
      obtain ⟨s, rfl⟩ := exists_of_isString hi
      exact ⟨s, rfl, trivial⟩
    obtain ⟨vars, hr, -⟩ := readMap_ok hread htest
    exact ⟨_, bind_eq_ok_iff.2 ⟨vars, hr, rfl⟩, fun h => { h with }⟩

theorem filled_of_ofJson (hs : Schema.isDefinition v = true) (h : ofJson v = .ok d) :
    d.Filled := by
  rw [isDefinition_eq] at hs
  obtain ⟨members, rfl, -, htests⟩ := exists_of_isObject hs
  have hstart : ({} : Definition).Filled :=
    ⟨fun p hp => absurd hp List.not_mem_nil, fun e he => absurd he List.not_mem_nil,
      fun q hq => absurd hq List.not_mem_nil⟩
  refine foldlM_keeps (P := Filled) (fun m hm a a' ha hput => ?_) hstart
    (Layout.read_object_eq_ok_iff.1 h).1
  refine of_exists_ok (a.put_ok (htests m hm) fun hname => ?_) hput ha
  rw [hname] at hput
  obtain ⟨packs, hpacks, -⟩ := bind_eq_ok_iff.1 hput
  exact ⟨packs, hpacks⟩

theorem isDefinition_toJson (h : d.Filled) (hp : ∀ p ∈ d.packs, p.IsParsed) :
    Schema.isDefinition d.toJson = true := by
  have hpacks : Schema.isArrayOf Schema.isPack (.array (d.packs.map Pack.toJson)) = true :=
    isArrayOf_map fun p hmem =>
      Pack.isPack_toJson (h.packs p hmem).1 (h.packs p hmem).2 (hp p hmem)
  have hrequirements : Schema.isArrayOf Schema.isRequirement
      (.array (d.requirements.map Requirement.toJson)) = true :=
    isArrayOf_map fun q hq => Requirement.isRequirement_toJson (h.requirements q hq)
  have hconditions : Schema.isMapOf Schema.isCondition
      (.object (d.conditions.toList.map fun e => (e.1, e.2.toJson))) = true :=
    isMapOf_map fun e he => Condition.isCondition_toJson (h.conditions e he)
  have hvars : Schema.isMapOf Schema.isString d.vars.toJson = true := isMapOf_map fun _ _ => rfl
  rw [toJson_eq, isDefinition_eq]
  simp [Schema.isObject, tests, hpacks, hrequirements, hconditions, hvars]

/-! ## Round trips -/

theorem ofText_eq_ok {validate : Bool} {text : String} (h : ofText validate text = .ok d) :
    ∃ v, Document.parse text = .ok v ∧ ofJson v = .ok d := by
  obtain ⟨v, hv, h⟩ := bind_eq_ok_iff.1 h
  refine ⟨v, hv, ?_⟩
  unfold ofDocument at h
  split at h
  · cases h
  · exact convert_eq_ok_iff.1 h

/-- A definition that was read is got back from the document that it is written as, and the schema
admits that document if it admitted the one that was read. -/
theorem roundTrip_of_ofText {validate : Bool} {text : String}
    (h : ofText validate text = .ok d) :
    ofJson d.toJson = .ok d ∧
      ∀ v, Document.parse text = .ok v → Schema.isDefinition v = true →
        Schema.isDefinition d.toJson = true := by
  obtain ⟨v, hv, hr⟩ := ofText_eq_ok h
  have hparsed := isParsed_of_ofJson hr
  refine ⟨ofJson_toJson hparsed, fun v' hv' hs => ?_⟩
  rw [hv] at hv'
  obtain rfl := Except.ok.inj hv'
  exact isDefinition_toJson (filled_of_ofJson hs hr) hparsed

/-- The text of a definition with a pack in an exclude group and a condition inside another. -/
def brushText : String :=
  "\x7b\"packs\": [\x7b\"name\": \"brush\", \"exclude_group\": \"tip\", " ++
    "\"condition\": \" !lite | pro \"\x7d], " ++
    "\"conditions\": \x7b\"pro\": \x7b\"type\": \"not\", " ++
    "\"condition\": \x7b\"type\": \"ref\", \"refid\": \"lite\"\x7d\x7d\x7d\x7d"

def brushJson : Json :=
  .object
    [("conditions", .object
        [("pro", .object
          [("condition", .object [("refid", .string "lite"), ("type", .string "ref")]),
            ("type", .string "not")])]),
      ("packs", .array
        [.object [("condition", .string " !lite | pro "), ("exclude_group", .string "tip"),
          ("name", .string "brush")]])]

def brush : Definition where
  packs :=
    [{ name := "brush", preselected := false, excludeGroup := some "tip"
       condition := some (.join .or (.term "lite" true) (.term "pro" false)) }]
  conditions := .ofList [("pro", .not (.ref "lite"))]

theorem brushText_tokens : Json.tokens brushText.toList =
    [.openObject, .spelled "packs", .colon, .openArray, .openObject, .spelled "name", .colon,
      .spelled "brush", .comma, .spelled "exclude_group", .colon, .spelled "tip", .comma,
      .spelled "condition", .colon, .spelled " !lite | pro ", .closeObject, .closeArray, .comma,
      .spelled "conditions", .colon, .openObject, .spelled "pro", .colon, .openObject,
      .spelled "type", .colon, .spelled "not", .comma, .spelled "condition", .colon, .openObject,
      .spelled "type", .colon, .spelled "ref", .comma, .spelled "refid", .colon, .spelled "lite",
      .closeObject, .closeObject, .closeObject, .closeObject] := by
  cbv

theorem parse_brushText : Document.parse brushText = .ok brushJson := by
  have hv : Json.ofText? brushText = some brushJson := by
    rw [Json.ofText?, Json.read?_eq_some_iff, brushText_tokens]
    simp [Json.Denotes, Json.maxDepth, Json.readValue, Json.readItems, Json.readMembers,
      Json.Token.spelled, Json.StringPart.value?, Json.StringPart.chars?, brushJson, Json.ofMembers,
      Sorted.ofList, Sorted.insert, Text.precedes, Text.charsPrecede]
  rw [Document.parse, hv]

theorem ofText_brushText : ofText true brushText = .ok brush := by
  rw [ofText, parse_brushText]
  rfl

theorem brush_roundTrip :
    ofText true brushText = .ok brush ∧ ofJson brush.toJson = .ok brush ∧
      Schema.isDefinition brushJson = true ∧ Schema.isDefinition brush.toJson = true := by
  obtain ⟨hback, hschema⟩ := roundTrip_of_ofText ofText_brushText
  have hs : Schema.isDefinition brushJson = true := rfl
  exact ⟨ofText_brushText, hback, hs, hschema brushJson parse_brushText hs⟩

end Definition

end PackChoice
