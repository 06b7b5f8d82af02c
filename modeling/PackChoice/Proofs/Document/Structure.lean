import PackChoice.Document.Schema
import PackChoice.Proofs.Sequencing

/-!
Readers, what is written for them and what the schema lets through to them. A reader gives back
what was written (`readList_map`, `readMap_map`), and it reads whatever passes the test that the
schema has for it (`readList_ok`, `readMap_ok`). A structure is read from an object if each of its
members is and none is missing (`Layout.read_ok`), and what a member brings about in it stays
(`Layout.read_brings`).
-/

namespace PackChoice.Document

variable {α σ : Type} {v : Json} {read : Json → Reading α}

/-! ## Reading what was written -/

@[simp] theorem readOption_ofOption (o : Option String) :
    readOption readString (.ofOption o) = .ok o := by
  cases o <;> rfl

@[simp] theorem readNat_ofNat (expected : Expected) (n : Nat) :
    readNat expected (.ofNat n) = .ok n := by
  simp [readNat, Json.ofNat]

theorem readList_map {write : α → Json} {xs : List α} (h : ∀ x ∈ xs, read (write x) = .ok x) :
    readList read (.array (xs.map write)) = .ok xs := by
  rw [readList, mapM_map_eq_ok (g := id) h, List.map_id]

@[simp] theorem readList_ofStrings (names : List String) :
    readList readString (.ofStrings names) = .ok names :=
  readList_map fun _ _ => rfl

theorem readList_eq_ok {xs : List α} (h : readList read v = .ok xs) :
    ∃ items, v = .array items ∧ items.mapM read = .ok xs := by
  unfold readList at h
  split at h
  · next items => exact ⟨items, rfl, h⟩
  · cases h

theorem readMap_map {write : α → Json} {m : NameMap α}
    (h : ∀ e ∈ m.toList, read (write e.2) = .ok e.2) :
    readMap read (.object (m.toList.map fun e => (e.1, write e.2))) = .ok m := by
  have hentries : (m.toList.map fun e => (e.1, write e.2)).mapM
      (fun e => do return (e.1, ← read e.2)) = .ok (m.toList.map id) :=
    mapM_map_eq_ok fun e he => by rw [h e he]; rfl
  rw [readMap, hentries, List.map_id]
  exact congrArg Except.ok (NameMap.ofList_toList m)

theorem exists_readNat_iff {expected : Expected} :
    (∃ n, readNat expected v = .ok n) ↔ ∃ n : Nat, v = .ofNat n := by
  constructor
  · rintro ⟨n, h⟩
    unfold readNat at h
    split at h
    · next k =>
      split at h
      · next hk => exact ⟨k.toNat, by rw [Json.ofNat, Int.toNat_of_nonneg hk]⟩
      · cases h
    · cases h
  · rintro ⟨n, rfl⟩
    exact ⟨n, readNat_ofNat expected n⟩

/-! ## Reading what the schema admits -/

theorem exists_of_isString (h : Schema.isString v = true) : ∃ s, v = .string s := by
  unfold Schema.isString at h
  split at h
  · exact ⟨_, rfl⟩
  · cases h

theorem exists_of_isFilled (h : Schema.isFilled v = true) : ∃ s, s ≠ "" ∧ v = .string s := by
  unfold Schema.isFilled at h
  split at h
  · next s => exact ⟨s, by simpa using h, rfl⟩
  · cases h

theorem exists_of_isFilledOrNull (h : Schema.isFilledOrNull v = true) :
    ∃ o, o ≠ some "" ∧ v = .ofOption o := by
  unfold Schema.isFilledOrNull at h
  split at h
  · exact ⟨none, by simp, rfl⟩
  · obtain ⟨s, hs, rfl⟩ := exists_of_isFilled h
    exact ⟨some s, by simpa using hs, rfl⟩

theorem exists_of_isBool (h : Schema.isBool v = true) : ∃ b, v = .bool b := by
  unfold Schema.isBool at h
  split at h
  · exact ⟨_, rfl⟩
  · cases h

/-- The items of an array that passes are read if each item that passes is. -/
theorem readList_ok {test : Json → Bool} {P : α → Prop}
    (hread : ∀ item, test item = true → ∃ x, read item = .ok x ∧ P x)
    (h : Schema.isArrayOf test v = true) : ∃ xs, readList read v = .ok xs ∧ ∀ x ∈ xs, P x := by
  unfold Schema.isArrayOf at h
  split at h
  · next items =>
    obtain ⟨xs, hxs, -, hP⟩ :=
      mapM_ok_of_forall fun item hi => hread item (List.all_eq_true.1 h item hi)
    exact ⟨xs, hxs, hP⟩
  · cases h

/-- The members of an object that passes are read if each member that passes is. -/
theorem readMap_ok {test : Json → Bool} {P : α → Prop}
    (hread : ∀ item, test item = true → ∃ x, read item = .ok x ∧ P x)
    (h : Schema.isMapOf test v = true) :
    ∃ m, readMap read v = .ok m ∧ ∀ e ∈ m.toList, P e.2 := by
  unfold Schema.isMapOf at h
  split at h
  · next members =>
    have hmembers := List.all_eq_true.1 h
    have hentry : ∀ m ∈ members, ∃ e : String × α,
        (do return (m.1, ← read m.2) : Reading (String × α)) = .ok e ∧ P e.2 := by
      intro m hm
      obtain ⟨x, hx, hP⟩ := hread m.2 (hmembers m hm)
      exact ⟨(m.1, x), by rw [hx]; rfl, hP⟩
    obtain ⟨entries, hentries, -, hP⟩ := mapM_ok_of_forall hentry
    exact ⟨.ofList entries, by rw [readMap, hentries]; rfl,
      fun e he => hP e (Sorted.mem_of_mem_ofList he)⟩
  · cases h

theorem readList_ok_of_isArrayOf (h : Schema.isArrayOf Schema.isFilled v = true) :
    ∃ names, readList readString v = .ok names ∧ "" ∉ names := by
  have hread : ∀ item, Schema.isFilled item = true →
      ∃ name, readString item = .ok name ∧ name ≠ "" := by
    intro item hi
    obtain ⟨name, hname, rfl⟩ := exists_of_isFilled hi
    exact ⟨name, rfl, hname⟩
  obtain ⟨names, hr, hnames⟩ := readList_ok hread h
  exact ⟨names, hr, fun hmem => hnames "" hmem rfl⟩

theorem isArrayOf_of_isFilledSet (h : Schema.isFilledSet v = true) :
    Schema.isArrayOf Schema.isFilled v = true := by
  unfold Schema.isFilledSet at h
  split at h
  · exact (Bool.and_eq_true_iff.1 h).1
  · cases h

/-! ## Writing what the schema admits -/

theorem isFilled_string {s : String} (h : s ≠ "") : Schema.isFilled (.string s) = true := by
  simpa [Schema.isFilled] using h

theorem isFilledOrNull_ofOption {o : Option String} (h : o ≠ some "") :
    Schema.isFilledOrNull (.ofOption o) = true := by
  cases o with
  | none => rfl
  | some s => exact isFilled_string fun hs => h (congrArg some hs)

theorem isCount_ofNat (n : Nat) : Schema.isCount (.ofNat n) = true := by
  simp [Schema.isCount, Json.ofNat, Number.isWhole, Number.isNonnegative]

theorem isArrayOf_map {test : Json → Bool} {write : α → Json} {xs : List α}
    (h : ∀ x ∈ xs, test (write x) = true) : Schema.isArrayOf test (.array (xs.map write)) = true := by
  rw [Schema.isArrayOf, List.all_map]
  exact List.all_eq_true.2 h

theorem isMapOf_map {test : Json → Bool} {write : α → Json} {entries : List (String × α)}
    (h : ∀ e ∈ entries, test (write e.2) = true) :
    Schema.isMapOf test (.object (entries.map fun e => (e.1, write e.2))) = true := by
  rw [Schema.isMapOf, List.all_map]
  exact List.all_eq_true.2 h

theorem isArrayOf_ofStrings {names : List String} (h : "" ∉ names) :
    Schema.isArrayOf Schema.isFilled (.ofStrings names) = true :=
  isArrayOf_map fun _ hname => isFilled_string fun he => h (he ▸ hname)

theorem isFilledSet_ofStrings {names : List String} (h : "" ∉ names) (hnodup : names.Nodup) :
    Schema.isFilledSet (.ofStrings names) = true := by
  have hfilled := isArrayOf_ofStrings h
  rw [Json.ofStrings, Schema.isArrayOf] at hfilled
  simpa [Schema.isFilledSet, Json.ofStrings, hfilled, List.filterMap_map, Function.comp_def]
    using hnodup

/-! ## Structures -/

/-- The members of an object that the schema admits are among those listed, and pass. -/
theorem exists_of_isObject {required : List String} {tests : List (String × (Json → Bool))}
    (h : Schema.isObject required tests v = true) : ∃ members, v = .object members ∧
      (∀ name ∈ required, ∃ m ∈ members, m.1 = name) ∧
        ∀ m ∈ members, ∃ t ∈ tests, t.1 = m.1 ∧ t.2 m.2 = true := by
  unfold Schema.isObject at h
  split at h
  · next members =>
    obtain ⟨hreq, hmembers⟩ := Bool.and_eq_true_iff.1 h
    refine ⟨members, rfl, fun name hname => ?_, fun m hm => ?_⟩
    · simpa using List.all_eq_true.1 hreq name hname
    · have htest := List.all_eq_true.1 hmembers m hm
      split at htest
      · next t ht =>
        exact ⟨t, List.mem_of_find?_eq_some ht, by simpa using List.find?_some ht, htest⟩
      · cases htest
  · cases h

namespace Layout

variable {layout : Layout} {put : σ → String → Json → Reading σ} {start s : σ}
  {members : List (String × Json)}

theorem missing?_eq_none_iff {given : List String} : layout.missing? given = none ↔
    ∀ m ∈ layout.members, m.optional = false → m.name ∈ given := by
  simp [missing?, List.find?_eq_none]

theorem read_object_eq_ok_iff : layout.read put start (.object members) = .ok s ↔
    members.foldlM (fun s m => put s m.1 m.2) start = .ok s ∧
      ∀ m ∈ layout.members, m.optional = false → m.name ∈ members.map Prod.fst := by
  rw [read, bind_eq_ok_iff, ← missing?_eq_none_iff]
  constructor
  · rintro ⟨filled, hfold, h⟩
    split at h
    · cases h
    · next hnone => exact ⟨Except.ok.inj h ▸ hfold, hnone⟩
  · rintro ⟨hfold, hnone⟩
    exact ⟨s, hfold, by rw [hnone]⟩

/-- A structure is read if each member can be stored in any state and none is missing. -/
theorem read_ok (layout : Layout) {required : List String} (start : σ)
    (hput : ∀ m ∈ members, ∀ s, ∃ s', put s m.1 m.2 = .ok s')
    (hgiven : ∀ name ∈ required, ∃ m ∈ members, m.1 = name)
    (hrequired : ∀ m ∈ layout.members, m.optional = false → m.name ∈ required) :
    ∃ s, layout.read put start (.object members) = .ok s := by
  obtain ⟨s, hs⟩ := foldlM_ok start hput
  refine ⟨s, read_object_eq_ok_iff.2 ⟨hs, fun m hm hreq => ?_⟩⟩
  exact List.mem_map.2 (hgiven m.name (hrequired m hm hreq))

/-- What storing any member keeps, reading a structure in any form keeps. -/
theorem read_keeps {P : σ → Prop}
    (step : ∀ name value s s', P s → put s name value = .ok s' → P s') (hstart : P start)
    (h : layout.read put start v = .ok s) : P s := by
  cases v with
  | object members =>
    exact foldlM_keeps (fun m _ => step m.1 m.2) hstart (read_object_eq_ok_iff.1 h).1
  | array items =>
    obtain ⟨filled, hfold, h⟩ := bind_eq_ok_iff.1 h
    have hfilled : P filled := foldlM_keeps (fun m _ => step m.1 m.2) hstart hfold
    split at h
    · cases h
    · split at h
      · cases h
      · exact Except.ok.inj h ▸ hfilled
  | null | bool | number | string => cases h

/-- What storing the member with a name brings about and storing any other one keeps holds of a
structure whose object has a member with that name. -/
theorem read_brings {P : σ → Prop} {name : String} (hname : ∃ m ∈ members, m.1 = name)
    (brings : ∀ m ∈ members, m.1 = name → ∀ s s', put s m.1 m.2 = .ok s' → P s')
    (keeps : ∀ m ∈ members, m.1 ≠ name → ∀ s s', P s → put s m.1 m.2 = .ok s' → P s')
    (h : layout.read put start (.object members) = .ok s) : P s := by
  obtain ⟨m, hm, hmname⟩ := hname
  refine foldlM_brings hm (brings m hm hmname) (fun y hy a a' ha hput => ?_)
    (read_object_eq_ok_iff.1 h).1
  by_cases hyname : y.1 = name
  · exact brings y hy hyname a a' hput
  · exact keeps y hy hyname a a' ha hput

end Layout

end PackChoice.Document
