import Mathlib.Data.List.Basic
import PackChoice.Proofs.Document.Structure

/-!
Conditions in documents. What was written is read back, also inside another condition
(`ofJson_toJson`). A document that the schema admits as a condition is read as one without empty
references (`ofJson_ok_of_isCondition`), and such a condition is written as a document that the
schema admits (`isCondition_toJson`).
-/

namespace PackChoice

open Document

namespace Condition

theorem memberReadings_eq_map (members : List (String × Json)) :
    memberReadings members = members.map fun m => (m.1, ofJson true m.2) := by
  induction members with
  | nil => rw [memberReadings, List.map_nil]
  | cons m members ih => rw [memberReadings, ih, List.map_cons]

theorem memberConditions_eq_map (members : List (String × Json)) :
    Schema.memberConditions members = members.map fun m => (m.1, Schema.isCondition m.2) := by
  induction members with
  | nil => rw [Schema.memberConditions, List.map_nil]
  | cons m members ih => rw [Schema.memberConditions, ih, List.map_cons]

/-! ## Written conditions -/

theorem toJson_variable (name value : String) : (Condition.variable name value).toJson = .object
    [("name", .string name), ("type", .string "variable"), ("value", .string value)] := by
  simp [toJson, Json.ofMembers, Sorted.ofList, Sorted.insert, Text.precedes, Text.charsPrecede]

theorem toJson_not (c : Condition) : c.not.toJson = .object
    [("condition", c.toJson), ("type", .string "not")] := by
  simp [toJson, Json.ofMembers, Sorted.ofList, Sorted.insert, Text.precedes, Text.charsPrecede]

theorem toJson_ref (id : String) : (Condition.ref id).toJson = .object
    [("refid", .string id), ("type", .string "ref")] := by
  simp [toJson, Json.ofMembers, Sorted.ofList, Sorted.insert, Text.precedes, Text.charsPrecede]

theorem toJson_join (op : Connective) (left right : Condition) :
    (Condition.join op left right).toJson = .object
      [("left", left.toJson), ("right", right.toJson), ("type", .string op.word)] := by
  simp [toJson, Json.ofMembers, Sorted.ofList, Sorted.insert, Text.precedes, Text.charsPrecede]

theorem Kind.ofWord?_word (kind : Kind) : ofWord? kind.word = some kind := by
  rcases kind with _ | _ | _ | op
  · rfl
  · rfl
  · rfl
  · cases op <;> rfl

theorem Kind.ofJson_word (nested : Bool) (kind : Kind) :
    Kind.ofJson nested (.string kind.word) = .ok kind := by
  rw [Kind.ofJson, kind.ofWord?_word]

theorem ofJson_object {nested : Bool} {members : List (String × Json)} {m : String × Json}
    {kind : Kind} (hm : members.find? (fun m => m.1 = "type") = some m)
    (hk : Kind.ofJson nested m.2 = .ok kind) : ofJson nested (.object members) =
      assemble kind (pick kind.members (members.map fun m => (m.1, readString m.2)))
        (pick kind.members (members.map fun m => (m.1, ofJson true m.2))) := by
  rw [ofJson, hm]
  dsimp only
  rw [hk, ← memberReadings_eq_map]
  rfl

theorem ofJson_toJson (c : Condition) (nested : Bool) : ofJson nested c.toJson = .ok c := by
  induction c generalizing nested with
  | «variable» name value =>
    rw [toJson_variable, ofJson_object rfl (Kind.ofJson_word nested .variable)]
    rfl
  | not c ih =>
    rw [toJson_not, ofJson_object rfl (Kind.ofJson_word nested .not)]
    simp only [List.map_cons, ih]
    rfl
  | ref id =>
    rw [toJson_ref, ofJson_object rfl (Kind.ofJson_word nested .ref)]
    rfl
  | join op left right ihl ihr =>
    rw [toJson_join, ofJson_object rfl (Kind.ofJson_word nested (.join op))]
    simp only [List.map_cons, ihl, ihr]
    rfl

/-! ## Conditions that the schema admits -/

/-- What the schema asks of the members of a kind, beside `type`. -/
def Kind.test : Kind → Json → Bool
  | .variable => Schema.isString
  | .ref => Schema.isFilled
  | .not | .join _ => Schema.isCondition

theorem isCondition_object {members : List (String × Json)} {m : String × Json} {word : String}
    {kind : Kind} (hm : members.find? (fun m => m.1 = "type") = some m)
    (hword : m.2 = .string word) (hk : Kind.ofWord? word = some kind) :
    Schema.isCondition (.object members) =
      Schema.hasExactly kind.members (members.map fun m => (m.1, kind.test m.2)) := by
  obtain ⟨name, value⟩ := m
  obtain rfl : value = .string word := hword
  rw [Schema.isCondition, hm]
  dsimp only
  rw [hk, memberConditions_eq_map]
  cases kind <;> rfl

theorem exists_of_isCondition {v : Json} (h : Schema.isCondition v = true) :
    ∃ members m word kind, v = .object members ∧
      members.find? (fun m => m.1 = "type") = some m ∧ m.2 = .string word ∧
        Kind.ofWord? word = some kind := by
  unfold Schema.isCondition at h
  split at h
  · next members =>
    split at h
    · next name word hm =>
      cases hk : Kind.ofWord? word with
      | none =>
        rw [hk] at h
        cases h
      | some kind => exact ⟨members, _, word, kind, rfl, hm, rfl, hk⟩
    · cases h
  · cases h

theorem hasExactly_eq_true_iff {names : List String} {test : Json → Bool}
    {members : List (String × Json)} :
    Schema.hasExactly names (members.map fun m => (m.1, test m.2)) = true ↔
      (∀ name ∈ names, ∃ m ∈ members, m.1 = name) ∧
        ∀ m ∈ members, m.1 = "type" ∨ m.1 ∈ names ∧ test m.2 = true := by
  simp [Schema.hasExactly]

/-- The listed members are picked if each of them is there and is read. -/
theorem pick_ok {α : Type} {names : List String} {entries : List (String × Reading α)}
    {P : α → Prop} (hnames : ∀ name ∈ names, ∃ m ∈ entries, m.1 = name)
    (hread : ∀ m ∈ entries, m.1 ∈ names → ∃ x, m.2 = .ok x ∧ P x) :
    ∃ xs, pick names entries = .ok xs ∧ xs.length = names.length ∧ ∀ x ∈ xs, P x := by
  have hlisted : ∀ m ∈ entries.filter (fun m => names.contains m.1), ∃ e : String × α,
      (do return (m.1, ← m.2) : Reading (String × α)) = .ok e ∧ e.1 = m.1 ∧ P e.2 := by
    intro m hm
    obtain ⟨hm, hc⟩ := List.mem_filter.1 hm
    obtain ⟨x, hx, hP⟩ := hread m hm (List.contains_iff_mem.1 hc)
    exact ⟨(m.1, x), by rw [hx]; rfl, rfl, hP⟩
  obtain ⟨given, hgiven⟩ := mapM_ok fun m hm => (hlisted m hm).imp fun _ he => he.1
  rw [pick, hgiven]
  refine mapM_ok_of_forall fun name hname => ?_
  cases hf : given.find? (fun e => e.1 = name) with
  | none =>
    obtain ⟨m, hm, rfl⟩ := hnames name hname
    have hmf : m ∈ entries.filter fun m => names.contains m.1 :=
      List.mem_filter.2 ⟨hm, List.contains_iff_mem.2 hname⟩
    obtain ⟨e, he, hkey, -⟩ := hlisted m hmf
    have hmem := (mem_of_mapM_eq_ok hgiven).2 ⟨m, hmf, he⟩
    exact absurd hkey (by simpa using List.find?_eq_none.1 hf e hmem)
  | some e =>
    obtain ⟨m, hm, he⟩ := (mem_of_mapM_eq_ok hgiven).1 (List.mem_of_find?_eq_some hf)
    exact ⟨e.2, rfl, (of_exists_ok (hlisted m hm) he).2⟩

/-- The members of a kind are picked from an object that the schema admits. -/
theorem pick_members_ok {α : Type} {kind : Kind} {members : List (String × Json)}
    {read : Json → Reading α} {P : α → Prop}
    (h : Schema.hasExactly kind.members (members.map fun m => (m.1, kind.test m.2)) = true)
    (hread : ∀ m ∈ members, kind.test m.2 = true → ∃ x, read m.2 = .ok x ∧ P x) :
    ∃ xs, pick kind.members (members.map fun m => (m.1, read m.2)) = .ok xs ∧
      xs.length = kind.members.length ∧ ∀ x ∈ xs, P x := by
  obtain ⟨hnames, hmembers⟩ := hasExactly_eq_true_iff.1 h
  refine pick_ok (fun name hname => ?_) fun e he hin => ?_
  · obtain ⟨m, hm, hname⟩ := hnames name hname
    exact ⟨_, List.mem_map_of_mem hm, hname⟩
  · obtain ⟨m, hm, rfl⟩ := List.mem_map.1 he
    refine hread m hm ((hmembers m hm).resolve_left fun htype => ?_).2
    -- No kind lists `type` among its members.
    rw [htype] at hin
    cases kind <;> simp [Kind.members] at hin

theorem sizeOf_lt_of_mem {members : List (String × Json)} {m : String × Json} (h : m ∈ members) :
    sizeOf m.2 < sizeOf (Json.object members) := by
  have hlt := List.sizeOf_lt_of_mem h
  obtain ⟨name, value⟩ := m
  simp only [Prod.mk.sizeOf_spec, Json.object.sizeOf_spec] at hlt ⊢
  omega

theorem ofJson_ok_of_isCondition {v : Json} (h : Schema.isCondition v = true) (nested : Bool) :
    ∃ c, ofJson nested v = .ok c ∧ "" ∉ c.references := by
  induction hn : sizeOf v using Nat.strongRecOn generalizing v nested with
  | ind n ih =>
    subst hn
    obtain ⟨members, m, word, kind, rfl, hm, hword, hk⟩ := exists_of_isCondition h
    rw [isCondition_object hm hword hk] at h
    have hkind : Kind.ofJson nested m.2 = .ok kind := by rw [hword, Kind.ofJson, hk]
    rw [ofJson_object hm hkind]
    have hinner : ∀ m ∈ members, Schema.isCondition m.2 = true →
        ∃ c, ofJson true m.2 = .ok c ∧ "" ∉ c.references :=
      fun m hm htest => ih _ (sizeOf_lt_of_mem hm) htest true rfl
    cases kind with
    | «variable» =>
      have hread : ∀ m ∈ members, Kind.variable.test m.2 = true →
          ∃ s, readString m.2 = .ok s ∧ True := by
        intro m _ htest
        obtain ⟨s, hs⟩ := exists_of_isString htest
        exact ⟨s, by rw [hs]; rfl, trivial⟩
      obtain ⟨xs, hxs, -⟩ := pick_members_ok h hread
      exact ⟨_, by rw [assemble, hxs]; rfl, List.not_mem_nil⟩
    | ref =>
      have hread : ∀ m ∈ members, Kind.ref.test m.2 = true →
          ∃ s, readString m.2 = .ok s ∧ s ≠ "" := by
        intro m _ htest
        obtain ⟨s, hne, hs⟩ := exists_of_isFilled htest
        exact ⟨s, by rw [hs]; rfl, hne⟩
      obtain ⟨xs, hxs, hlength, hne⟩ := pick_members_ok h hread
      obtain ⟨id, rfl⟩ := List.length_eq_one_iff.1 hlength
      refine ⟨.ref id, by rw [assemble, hxs]; rfl, fun hmem => ?_⟩
      exact hne id List.mem_cons_self (List.mem_singleton.1 hmem).symm
    | not =>
      obtain ⟨cs, hcs, hlength, hrefs⟩ := pick_members_ok h hinner
      obtain ⟨c, rfl⟩ := List.length_eq_one_iff.1 hlength
      exact ⟨.not c, by rw [assemble, hcs]; rfl, hrefs c List.mem_cons_self⟩
    | join op =>
      obtain ⟨cs, hcs, hlength, hrefs⟩ := pick_members_ok h hinner
      obtain ⟨left, right, rfl⟩ := List.length_eq_two.1 hlength
      refine ⟨.join op left right, by rw [assemble, hcs]; rfl, fun hmem => ?_⟩
      rcases List.mem_append.1 hmem with hmem | hmem
      · exact hrefs left (by simp) hmem
      · exact hrefs right (by simp) hmem

theorem isCondition_toJson {c : Condition} (h : "" ∉ c.references) :
    Schema.isCondition c.toJson = true := by
  induction c with
  | «variable» name value =>
    rw [toJson_variable, isCondition_object rfl rfl (Kind.ofWord?_word .variable)]
    rfl
  | not c ih =>
    rw [toJson_not, isCondition_object rfl rfl (Kind.ofWord?_word .not)]
    simp only [List.map_cons, Kind.test, ih h]
    rfl
  | ref id =>
    rw [toJson_ref, isCondition_object rfl rfl (Kind.ofWord?_word .ref)]
    have hid : Schema.isFilled (.string id) = true :=
      isFilled_string fun he => h (List.mem_singleton.2 he.symm)
    simp only [List.map_cons, Kind.test, hid]
    rfl
  | join op left right ihl ihr =>
    rw [toJson_join, isCondition_object rfl rfl (Kind.ofWord?_word (.join op))]
    have hl := ihl fun hmem => h (List.mem_append_left _ hmem)
    have hr := ihr fun hmem => h (List.mem_append_right _ hmem)
    simp only [List.map_cons, Kind.test, hl, hr]
    rfl

end Condition

end PackChoice
