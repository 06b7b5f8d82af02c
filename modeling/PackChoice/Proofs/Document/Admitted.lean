import PackChoice.Proofs.Document.Definitions

/-!
What the schema admits is read, but for two things that it does not look at: whether the size of a
pack is written as a plain integer, and whether the condition of a pack is an expression
(`Definition.ofJson_fails_iff`). Both are told pack by pack (`Pack.exists_ofJson_iff`), since each
member is read on its own and no object of a text has two members with one name.
-/

namespace PackChoice

open Document

variable {v : Json}

namespace Pack

/-! ## Packs -/

/-- Whether a pack that the schema admits is none for the reader: its size is not a natural number
in 64 bits, or its condition is not an expression. -/
def IsMisfit (pack : Json) : Prop :=
  (∃ size, pack.member? "size" = some size ∧ ¬∃ n < NumberText.wordLimit, size = .ofNat n) ∨
    ∃ source, pack.member? "condition" = some (.string source) ∧ Expression.parse? source = none

theorem exists_readCondition_iff {source : Option String} :
    (∃ condition, readCondition source = .ok condition) ↔
      ∀ s, source = some s → ∃ e, Expression.parse? s = some e := by
  cases source with
  | none => simp [readCondition]
  | some s =>
    cases he : Expression.parse? s with
    | none => simp [readCondition, he]
    | some e => simp [readCondition, he]

theorem Draft.exists_finish_iff {d : Draft} :
    (∃ p, d.finish = .ok p) ↔
      ∀ source, d.condition = some source → ∃ e, Expression.parse? source = some e := by
  rw [← exists_readCondition_iff]
  constructor
  · rintro ⟨p, h⟩
    obtain ⟨condition, hc, -⟩ := bind_eq_ok_iff.1 h
    exact ⟨condition, hc⟩
  · rintro ⟨condition, hc⟩
    exact ⟨_, bind_eq_ok_iff.2 ⟨condition, hc, rfl⟩⟩

theorem Draft.condition_put {d d' : Draft} (ht : ∃ t ∈ tests, t.1 = "condition" ∧ t.2 v = true)
    (h : d.put "condition" v = .ok d') : v = .ofOption d'.condition := by
  have htest : Schema.isFilledOrNull v = true := by simpa [tests] using ht
  obtain ⟨o, -, rfl⟩ := exists_of_isFilledOrNull htest
  obtain ⟨o', ho', h⟩ := bind_eq_ok_iff.1 h
  rw [readOption_ofOption] at ho'
  cases h
  rw [Except.ok.inj ho']

theorem not_isMisfit_iff (hw : v.Written) :
    ¬IsMisfit v ↔ (∀ size, v.member? "size" = some size → ∃ n, size = .ofNat n) ∧
      ∀ source, v.member? "condition" = some (.string source) →
        ∃ e, Expression.parse? source = some e := by
  rw [IsMisfit, not_or]
  refine and_congr ?_ ?_
  · rw [not_exists]
    refine forall_congr' fun size => ?_
    rw [not_and_not_right]
    refine imp_congr_right fun hsize => ⟨fun ⟨n, _, hn⟩ => ⟨n, hn⟩, ?_⟩
    rintro ⟨n, rfl⟩
    exact ⟨n, (hw.of_member? hsize).lt_wordLimit, rfl⟩
  · simp [← Option.ne_none_iff_exists']

section

variable {members : List (String × Json)} {d : Draft} (hw : (Json.object members).Written)
  (hs : Schema.isPack (.object members) = true)
include hw hs

/-- The members of a pack are read if its size is. -/
theorem exists_read_iff : (∃ d, layout.read Draft.put {} (.object members) = .ok d) ↔
    ∀ size, (Json.object members).member? "size" = some size → ∃ n, size = .ofNat n := by
  obtain ⟨_, ⟨⟩, hreq, htests⟩ := exists_of_isPack hs
  constructor
  · rintro ⟨d, hd⟩ size hsize
    obtain ⟨a, a', hput⟩ := exists_of_foldlM_eq_ok (Layout.read_object_eq_ok_iff.1 hd).1 _
      (hw.member?_eq_some_iff.1 hsize)
    exact Draft.exists_of_put_size hput
  · intro hsizes
    have hput : ∀ m ∈ members, ∀ a : Draft, ∃ a', a.put m.1 m.2 = .ok a' := by
      rintro ⟨name, value⟩ hm a
      refine (a.put_ok (htests _ hm) ?_).imp fun _ h => h.1
      rintro rfl
      exact hsizes value (hw.member?_eq_some_iff.2 hm)
    exact layout.read_ok {} hput hreq (by simp [layout])

/-- The draft of a pack has the condition that the pack gives as a text. -/
theorem condition_read_iff {source : String}
    (hd : layout.read Draft.put {} (.object members) = .ok d) : d.condition = some source ↔
      (Json.object members).member? "condition" = some (.string source) := by
  obtain ⟨_, ⟨⟩, -, htests⟩ := exists_of_isPack hs
  constructor
  · refine foldlM_keeps (P := fun d : Draft => d.condition = some source →
      (Json.object members).member? "condition" = some (.string source)) ?_ (by simp)
      (Layout.read_object_eq_ok_iff.1 hd).1
    rintro ⟨name, value⟩ hm a a' ha hput hsource
    by_cases hname : name = "condition"
    · subst hname
      have hvalue := Draft.condition_put (htests _ hm) hput
      rw [hsource] at hvalue
      obtain rfl : value = .string source := hvalue
      exact hw.member?_eq_some_iff.2 hm
    · rw [(Draft.put_frame hput).2 hname] at hsource
      exact ha hsource
  · -- The last member with a name counts; here the one that is found is the only one.
    intro hsource
    refine Layout.read_brings (P := fun d => d.condition = some source)
      ⟨_, hw.member?_eq_some_iff.1 hsource, rfl⟩ ?_ ?_ hd
    · rintro ⟨name, value⟩ hm rfl a a' hput
      rw [hw.member?_eq_some_iff.2 hm] at hsource
      obtain rfl := Option.some.inj hsource
      cases hput
      rfl
    · intro m _ hname a a' ha hput
      rw [(Draft.put_frame hput).2 hname, ha]

end

/-- A pack that the schema admits is read unless it is a misfit. -/
theorem exists_ofJson_iff (hw : v.Written) (hs : Schema.isPack v = true) :
    (∃ p, ofJson v = .ok p) ↔ ¬IsMisfit v := by
  obtain ⟨members, rfl, -, -⟩ := exists_of_isPack hs
  rw [not_isMisfit_iff hw, ← exists_read_iff hw hs]
  constructor
  · rintro ⟨p, h⟩
    obtain ⟨d, hd, hfinish⟩ := bind_eq_ok_iff.1 h
    exact ⟨⟨d, hd⟩, fun source hsource => Draft.exists_finish_iff.1 ⟨p, hfinish⟩ source
      ((condition_read_iff hw hs hd).2 hsource)⟩
  · rintro ⟨⟨d, hd⟩, hsources⟩
    obtain ⟨p, hp⟩ := Draft.exists_finish_iff.2 fun source hsource =>
      hsources source ((condition_read_iff hw hs hd).1 hsource)
    exact ⟨p, bind_eq_ok_iff.2 ⟨d, hd, hp⟩⟩

end Pack

namespace Definition

/-! ## Definitions -/

/-- The packs that a document lists. -/
def listedPacks (v : Json) : List Json :=
  match v.member? "packs" with
  | some (.array items) => items
  | _ => []

theorem exists_of_isDefinition (hw : v.Written) (hs : Schema.isDefinition v = true) :
    ∃ members, v = .object members ∧ ("packs", .array (listedPacks v)) ∈ members ∧
      ∀ m ∈ members, ∃ t ∈ tests, t.1 = m.1 ∧ t.2 m.2 = true := by
  rw [isDefinition_eq] at hs
  obtain ⟨members, rfl, hreq, htests⟩ := exists_of_isObject hs
  refine ⟨members, rfl, ?_, htests⟩
  obtain ⟨⟨name, packs⟩, hm, rfl⟩ := hreq "packs" List.mem_cons_self
  have htest : Schema.isArrayOf Schema.isPack packs = true := by simpa [tests] using htests _ hm
  unfold Schema.isArrayOf at htest
  split at htest
  · next items =>
    rw [listedPacks, hw.member?_eq_some_iff.2 hm]
    exact hm
  · cases htest

theorem of_mem_listedPacks {pack : Json} (hw : v.Written) (hs : Schema.isDefinition v = true)
    (hp : pack ∈ listedPacks v) : pack.Written ∧ Schema.isPack pack = true := by
  obtain ⟨members, rfl, hpacks, htests⟩ := exists_of_isDefinition hw hs
  have hitems := hw.of_member? (hw.member?_eq_some_iff.2 hpacks)
  have htest : (listedPacks (.object members)).all Schema.isPack = true := by
    simpa [tests, Schema.isArrayOf] using htests _ hpacks
  exact ⟨hitems.of_mem hp, List.all_eq_true.1 htest pack hp⟩

theorem exists_ofJson_iff (hw : v.Written) (hs : Schema.isDefinition v = true) :
    (∃ d, ofJson v = .ok d) ↔ ∀ pack ∈ listedPacks v, ∃ p, Pack.ofJson pack = .ok p := by
  obtain ⟨members, hv, hpacks, htests⟩ := exists_of_isDefinition hw hs
  constructor
  · rintro ⟨d, hd⟩
    rw [hv] at hd
    obtain ⟨a, a', hput⟩ :=
      exists_of_foldlM_eq_ok (Layout.read_object_eq_ok_iff.1 hd).1 _ hpacks
    obtain ⟨packs, hr, -⟩ := bind_eq_ok_iff.1 hput
    exact exists_of_mapM_eq_ok hr
  · intro h
    obtain ⟨packs, hr⟩ := mapM_ok h
    have hput : ∀ m ∈ members, ∀ a : Definition, ∃ a', a.put m.1 m.2 = .ok a' := by
      rintro ⟨name, value⟩ hm a
      refine (a.put_ok (htests _ hm) ?_).imp fun _ h => h.1
      rintro rfl
      obtain rfl : value = .array (listedPacks v) := by
        subst hv
        rw [← Option.some.injEq, ← hw.member?_eq_some_iff.2 hm, hw.member?_eq_some_iff.2 hpacks]
      exact ⟨packs, hr⟩
    have hgiven : ∀ name ∈ ["packs"], ∃ m ∈ members, m.1 = name :=
      List.forall_mem_singleton.2 ⟨_, hpacks, rfl⟩
    rw [hv]
    exact layout.read_ok {} hput hgiven (by simp [layout])

/-- A document that the schema admits is no definition exactly if one of its packs is a misfit. Its
numbers are natural numbers in 64 bits exactly if they are written with digits alone and fit. -/
theorem ofJson_fails_iff {depth : Nat} {text : String} (hv : Json.read? depth text = some v)
    (hs : Schema.isDefinition v = true) :
    ((∃ e, ofJson v = .error e) ↔ ∃ pack ∈ listedPacks v, Pack.IsMisfit pack) ∧
      ((∃ d, ofJson v = .ok d) ↔ ∀ pack ∈ listedPacks v, ¬Pack.IsMisfit pack) ∧
        ∀ (t : NumberText) (n : Nat),
          t.value? = some (.integer n) ↔ t.IsWord ∧ Json.ofDigits t.whole = n := by
  have hw := Json.written_of_read? hv
  have hok : (∃ d, ofJson v = .ok d) ↔ ∀ pack ∈ listedPacks v, ¬Pack.IsMisfit pack := by
    rw [exists_ofJson_iff hw hs]
    refine forall₂_congr fun pack hp => ?_
    obtain ⟨hwp, hsp⟩ := of_mem_listedPacks hw hs hp
    exact Pack.exists_ofJson_iff hwp hsp
  refine ⟨?_, hok, fun t n => NumberText.value?_eq_integer_iff⟩
  rw [exists_eq_error_iff, hok]
  simp only [not_forall, not_not, exists_prop]

/-- A pack whose condition ends in a connective. -/
def inkText : String :=
  "\x7b\"packs\": [\x7b\"name\": \"ink\", \"size\": 12, \"condition\": \"pen+\"\x7d]\x7d"

def inkPack : Json :=
  .object [("condition", .string "pen+"), ("name", .string "ink"), ("size", .ofNat 12)]

def ink : Json := .object [("packs", .array [inkPack])]

theorem inkText_tokens : Json.tokens inkText.toList =
    [.openObject, .spelled "packs", .colon, .openArray, .openObject, .spelled "name", .colon,
      .spelled "ink", .comma, .spelled "size", .colon, .number ⟨false, [1, 2], none, none⟩, .comma,
      .spelled "condition", .colon, .spelled "pen+", .closeObject, .closeArray, .closeObject] := by
  cbv

theorem read?_inkText : Json.read? 3 inkText = some ink := by
  rw [Json.read?_eq_some_iff, inkText_tokens]
  have hsize : NumberText.value? ⟨false, [1, 2], none, none⟩ = some (.integer 12) := by
    simp [NumberText.value?, NumberText.gather, NumberText.wordLimit]
  simp [Json.Denotes, Json.readValue, Json.readItems, Json.readMembers, Json.Token.spelled,
    Json.StringPart.value?, Json.StringPart.chars?, hsize, ink, inkPack, Json.ofNat,
    Json.ofMembers, Sorted.ofList, Sorted.insert, Text.precedes, Text.charsPrecede]

theorem ink_fails : Schema.isDefinition ink = true ∧ ∃ e, ofJson ink = .error e := by
  have hs : Schema.isDefinition ink = true := rfl
  have hmisfit : Pack.IsMisfit inkPack := .inr ⟨"pen+", rfl, rfl⟩
  exact ⟨hs, (ofJson_fails_iff read?_inkText hs).1.2 ⟨inkPack, List.mem_singleton_self _, hmisfit⟩⟩

end Definition

end PackChoice
