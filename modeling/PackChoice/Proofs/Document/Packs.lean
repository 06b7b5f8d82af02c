import PackChoice.Document.Packs
import PackChoice.Proofs.Document.Structure
import PackChoice.Proofs.Expression

/-!
Packs in documents. A pack that was read is written as a document from which the same pack is read
(`ofJson_toJson`), since the expression of its condition is got back from its text (`IsParsed`).
In a document that the schema admits every member but the size is sure to be read
(`Draft.put_ok`); the names in the pack are not empty then (`filled_of_ofJson`), and the schema
admits what is written for such a pack (`isPack_toJson`).
-/

namespace PackChoice.Pack

open Document

variable {p : Pack} {d d' : Draft} {v : Json} {name : String}

/-! ## Written packs -/

theorem toJson_eq (p : Pack) : p.toJson = .object
    [("condition", .ofOption (p.condition.map Expression.text)),
      ("dependencies", .ofStrings p.dependencies), ("description", .string p.description),
      ("exclude_group", .ofOption p.excludeGroup), ("hidden", .bool p.hidden),
      ("id", .ofOption p.id), ("install_groups", .ofStrings p.installGroups.toList),
      ("loose", .bool p.loose), ("name", .string p.name), ("parent", .ofOption p.parent),
      ("preselected", .bool p.preselected), ("required", .bool p.required),
      ("size", .ofNat p.size)] := by
  simp [toJson, Json.ofMembers, Sorted.ofList, Sorted.insert, Text.precedes, Text.charsPrecede]

/-- Whether the expression of a pack is got back from its text. -/
def IsParsed (p : Pack) : Prop :=
  ∀ e, p.condition = some e → Expression.parse? e.text = some e

theorem readCondition_eq_ok {text : Option String} {condition : Option Expression}
    (h : readCondition text = .ok condition) : text.bind Expression.parse? = condition := by
  unfold readCondition at h
  split at h
  · exact Except.ok.inj h
  · split at h
    · next e he => rw [Option.bind_some, he, Except.ok.inj h]
    · cases h

theorem Draft.finish_eq_ok (h : d.finish = .ok p) :
    p = { d.pack with
      preselected := d.preselected.getD d.pack.excludeGroup.isNone
      condition := d.condition.bind Expression.parse? } := by
  obtain ⟨condition, hc, h⟩ := bind_eq_ok_iff.1 h
  rw [← pure_eq_ok_iff.1 h, readCondition_eq_ok hc]

theorem isParsed_of_ofJson (h : ofJson v = .ok p) : p.IsParsed := by
  obtain ⟨d, -, h⟩ := bind_eq_ok_iff.1 h
  intro e he
  rw [Draft.finish_eq_ok h] at he
  obtain ⟨text, -, htext⟩ := Option.bind_eq_some_iff.1 he
  exact Expression.parse?_text_of_parse? htext

theorem IsParsed.readCondition (h : p.IsParsed) :
    readCondition (p.condition.map Expression.text) = .ok p.condition := by
  cases hc : p.condition with
  | none => rfl
  | some e => rw [Option.map_some, Pack.readCondition, h e hc]

theorem ofJson_toJson (h : p.IsParsed) : ofJson p.toJson = .ok p := by
  have hdraft : layout.read Draft.put {} p.toJson = .ok
      { pack := { p with preselected := true, condition := none }
        preselected := some p.preselected
        condition := p.condition.map Expression.text } := by
    rw [toJson_eq, Layout.read_object_eq_ok_iff]
    constructor
    · simp only [List.foldlM_cons, List.foldlM_nil, Draft.put, readOption_ofOption,
        readList_ofStrings, readNat_ofNat, readString, readBool, NameSet.ofList_toList,
        UInt64.ofNat_toNat, bind, Except.bind, pure, Except.pure]
      rfl
    · simp [layout]
  rw [ofJson, hdraft]
  change Draft.finish _ = _
  rw [Draft.finish, h.readCondition]
  rfl

/-! ## Packs that the schema admits -/

/-- Whether none of the names in a pack is empty, apart from its own. -/
structure Filled (p : Pack) : Prop where
  id : p.id ≠ some ""
  excludeGroup : p.excludeGroup ≠ some ""
  installGroups : "" ∉ p.installGroups
  dependencies : "" ∉ p.dependencies
  parent : p.parent ≠ some ""

/-- What the schema asks of the members of a pack. -/
def tests : List (String × (Json → Bool)) :=
  [("name", Schema.isFilled), ("id", Schema.isFilledOrNull), ("description", Schema.isString),
    ("required", Schema.isBool), ("preselected", Schema.isBool), ("loose", Schema.isBool),
    ("exclude_group", Schema.isFilledOrNull), ("install_groups", Schema.isFilledSet),
    ("dependencies", Schema.isArrayOf Schema.isFilled), ("condition", Schema.isFilledOrNull),
    ("hidden", Schema.isBool), ("parent", Schema.isFilledOrNull), ("size", Schema.isCount)]

theorem isPack_eq : Schema.isPack = Schema.isObject ["name"] tests := rfl

theorem Draft.put_frame (h : d.put name v = .ok d') :
    (name ≠ "name" → d'.pack.name = d.pack.name) ∧
      (name ≠ "condition" → d'.condition = d.condition) := by
  unfold put at h
  split at h
  case h_14 =>
    cases h
    exact ⟨fun _ => rfl, fun _ => rfl⟩
  all_goals
    obtain ⟨x, -, h⟩ := bind_eq_ok_iff.1 h
    cases h
    simp

theorem Draft.put_ok (d : Draft) (ht : ∃ t ∈ tests, t.1 = name ∧ t.2 v = true)
    (hsize : name = "size" → ∃ n : Nat, v = .ofNat n) :
    ∃ d', d.put name v = .ok d' ∧ (d.pack.Filled → d'.pack.Filled) := by
  obtain ⟨t, ht, rfl, htest⟩ := ht
  simp only [tests, List.mem_cons, List.not_mem_nil, or_false] at ht
  -- One case for each member, in the order of `tests`.
  rcases ht with rfl | rfl | rfl | rfl | rfl | rfl | rfl | rfl | rfl | rfl | rfl | rfl | rfl
  · obtain ⟨s, -, rfl⟩ := exists_of_isFilled htest
    exact ⟨_, rfl, fun h => { h with }⟩
  · obtain ⟨o, ho, rfl⟩ := exists_of_isFilledOrNull htest
    exact ⟨_, bind_eq_ok_iff.2 ⟨o, readOption_ofOption o, rfl⟩, fun h => { h with id := ho }⟩
  · obtain ⟨s, rfl⟩ := exists_of_isString htest
    exact ⟨_, rfl, fun h => { h with }⟩
  · obtain ⟨b, rfl⟩ := exists_of_isBool htest
    exact ⟨_, rfl, fun h => { h with }⟩
  · obtain ⟨b, rfl⟩ := exists_of_isBool htest
    exact ⟨_, rfl, fun h => { h with }⟩
  · obtain ⟨b, rfl⟩ := exists_of_isBool htest
    exact ⟨_, rfl, fun h => { h with }⟩
  · obtain ⟨o, ho, rfl⟩ := exists_of_isFilledOrNull htest
    exact ⟨_, bind_eq_ok_iff.2 ⟨o, readOption_ofOption o, rfl⟩,
      fun h => { h with excludeGroup := ho }⟩
  · obtain ⟨names, hr, hnames⟩ := readList_ok_of_isArrayOf (isArrayOf_of_isFilledSet htest)
    exact ⟨_, bind_eq_ok_iff.2 ⟨names, hr, rfl⟩,
      fun h => { h with installGroups := fun hmem => hnames (NameSet.mem_ofList.1 hmem) }⟩
  · obtain ⟨names, hr, hnames⟩ := readList_ok_of_isArrayOf htest
    exact ⟨_, bind_eq_ok_iff.2 ⟨names, hr, rfl⟩, fun h => { h with dependencies := hnames }⟩
  · obtain ⟨o, -, rfl⟩ := exists_of_isFilledOrNull htest
    exact ⟨_, bind_eq_ok_iff.2 ⟨o, readOption_ofOption o, rfl⟩, fun h => { h with }⟩
  · obtain ⟨b, rfl⟩ := exists_of_isBool htest
    exact ⟨_, rfl, fun h => { h with }⟩
  · obtain ⟨o, ho, rfl⟩ := exists_of_isFilledOrNull htest
    exact ⟨_, bind_eq_ok_iff.2 ⟨o, readOption_ofOption o, rfl⟩, fun h => { h with parent := ho }⟩
  · obtain ⟨n, rfl⟩ := hsize rfl
    exact ⟨_, bind_eq_ok_iff.2 ⟨n, readNat_ofNat .size n, rfl⟩, fun h => { h with }⟩

theorem isPack_toJson (hname : p.name ≠ "") (h : p.Filled) (hp : p.IsParsed) :
    Schema.isPack p.toJson = true := by
  have hcondition : p.condition.map Expression.text ≠ some "" := by
    intro hc
    obtain ⟨e, he, htext⟩ := Option.map_eq_some_iff.1 hc
    exact Expression.ne_empty_of_parse? (hp e he) htext
  rw [toJson_eq, isPack_eq]
  simp [Schema.isObject, tests, Schema.isString, Schema.isBool, isCount_ofNat,
    isFilled_string hname, isFilledOrNull_ofOption hcondition, isFilledOrNull_ofOption h.id,
    isFilledOrNull_ofOption h.excludeGroup, isFilledOrNull_ofOption h.parent,
    isFilledSet_ofStrings h.installGroups p.installGroups.increasing.nodup,
    isArrayOf_ofStrings h.dependencies]

/-- The object that the schema admits as a pack, and what its members pass. -/
theorem exists_of_isPack (h : Schema.isPack v = true) : ∃ members, v = .object members ∧
    (∀ name ∈ ["name"], ∃ m ∈ members, m.1 = name) ∧
      ∀ m ∈ members, ∃ t ∈ tests, t.1 = m.1 ∧ t.2 m.2 = true :=
  exists_of_isObject (isPack_eq ▸ h)

theorem Draft.exists_of_put_size (h : d.put "size" v = .ok d') : ∃ n : Nat, v = .ofNat n := by
  obtain ⟨n, hn, -⟩ := bind_eq_ok_iff.1 h
  exact exists_readNat_iff.1 ⟨n, hn⟩

theorem Draft.filled_put (ht : ∃ t ∈ tests, t.1 = name ∧ t.2 v = true)
    (h : d.put name v = .ok d') (hd : d.pack.Filled) : d'.pack.Filled :=
  of_exists_ok (d.put_ok ht fun he => exists_of_put_size (he ▸ h)) h hd

theorem Draft.name_put (ht : ∃ t ∈ tests, t.1 = "name" ∧ t.2 v = true)
    (h : d.put "name" v = .ok d') : d'.pack.name ≠ "" := by
  have htest : Schema.isFilled v = true := by simpa [tests] using ht
  obtain ⟨s, hs, rfl⟩ := exists_of_isFilled htest
  cases h
  exact hs

theorem filled_of_ofJson (hs : Schema.isPack v = true) (h : ofJson v = .ok p) :
    p.name ≠ "" ∧ p.Filled := by
  obtain ⟨members, rfl, hreq, htests⟩ := exists_of_isPack hs
  have hnamed := hreq "name" List.mem_cons_self
  obtain ⟨d, hd, h⟩ := bind_eq_ok_iff.1 h
  have hstart : ({} : Draft).pack.Filled := by
    constructor <;> simp
  have hfilled : d.pack.Filled :=
    foldlM_keeps (P := fun d => d.pack.Filled)
      (fun m hm a a' ha hput => Draft.filled_put (htests m hm) hput ha) hstart
      (Layout.read_object_eq_ok_iff.1 hd).1
  have hname : d.pack.name ≠ "" := by
    refine Layout.read_brings (P := fun d => d.pack.name ≠ "") hnamed ?_ ?_ hd
    · intro m hm hm1 a a' hput
      exact Draft.name_put (hm1 ▸ htests m hm) (hm1 ▸ hput)
    · intro m hm hm1 a a' ha hput
      rw [(Draft.put_frame hput).1 hm1]
      exact ha
  rw [Draft.finish_eq_ok h]
  exact ⟨hname, { hfilled with }⟩

end PackChoice.Pack
