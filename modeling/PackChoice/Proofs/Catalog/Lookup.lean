import Mathlib.Data.List.Nodup
import Mathlib.Data.List.Pairwise
import PackChoice.Catalog

/-!
Finding packs in a catalog. A pack is fixed by its position, by its name and by its key; the
lookups by name agree with the positions (`indexOf?_eq_some_iff`, `get?_eq_some_iff`). No two packs
share a key (`key_inj`), although ids and names are checked apart.
-/

namespace PackChoice

namespace Pack

theorem mem_names {packs : List Pack} {name : String} :
    name ∈ names packs ↔ ∃ p ∈ packs, p.name = name := List.mem_map

theorem name_mem_names {packs : List Pack} {p : Pack} (h : p ∈ packs) : p.name ∈ names packs :=
  mem_names.2 ⟨p, h, rfl⟩

end Pack

namespace Catalog

variable {c : Catalog} {p q : Pack} {i j : Nat} {name : String}

theorem packs_of_ofPacks {packs : List Pack} (h : ofPacks packs = .ok c) : c.packs = packs := by
  rw [ofPacks] at h
  split at h
  · cases h
  · split at h
    · cases h
    · split at h
      · cases h
      · rw [← Except.ok.inj h]

theorem name_inj (hp : p ∈ c.packs) (hq : q ∈ c.packs) (h : p.name = q.name) : p = q :=
  List.inj_on_of_nodup_map c.names_nodup hp hq h

theorem name_mem_names_iff {packs : List Pack} (hc : ∀ q ∈ packs, q ∈ c.packs) (hp : p ∈ c.packs) :
    p.name ∈ Pack.names packs ↔ p ∈ packs := by
  refine ⟨fun h => ?_, Pack.name_mem_names⟩
  obtain ⟨q, hq, hname⟩ := Pack.mem_names.1 h
  rwa [← name_inj (hc q hq) hp hname]

theorem packs_nodup (c : Catalog) : c.packs.Nodup := List.Nodup.of_map _ c.names_nodup

theorem lt_of_getElem? (h : c.packs[i]? = some p) : i < c.packs.length :=
  (List.getElem?_eq_some_iff.1 h).1

theorem position_inj (hi : c.packs[i]? = some p) (hj : c.packs[j]? = some q)
    (h : p.name = q.name) : i = j := by
  have hpq : p = q := name_inj (List.mem_of_getElem? hi) (List.mem_of_getElem? hj) h
  rw [hpq, ← hj] at hi
  exact ((List.getElem?_inj (lt_of_getElem? hj) c.packs_nodup).1 hi.symm).symm

theorem indexOf?_eq_some_iff :
    c.indexOf? name = some i ↔ ∃ p, c.packs[i]? = some p ∧ p.name = name := by
  rw [indexOf?, List.findIdx?_eq_some_iff_getElem]
  constructor
  · rintro ⟨hi, hname, -⟩
    exact ⟨_, List.getElem?_eq_getElem hi, of_decide_eq_true hname⟩
  · rintro ⟨p, hp, rfl⟩
    obtain ⟨hi, rfl⟩ := List.getElem?_eq_some_iff.1 hp
    refine ⟨hi, decide_eq_true rfl, fun k hk hname => ?_⟩
    have hki := position_inj (List.getElem?_eq_getElem (by omega)) hp (of_decide_eq_true hname)
    omega

theorem indexOf?_of_mem (h : name ∈ Pack.names c.packs) : ∃ i, c.indexOf? name = some i := by
  obtain ⟨p, hp, rfl⟩ := Pack.mem_names.1 h
  obtain ⟨i, hi⟩ := List.mem_iff_getElem?.1 hp
  exact ⟨i, indexOf?_eq_some_iff.2 ⟨p, hi, rfl⟩⟩

theorem indexOf?_eq_none_iff : c.indexOf? name = none ↔ name ∉ Pack.names c.packs := by
  constructor
  · intro h hm
    obtain ⟨i, hi⟩ := indexOf?_of_mem hm
    rw [h] at hi
    cases hi
  · intro h
    cases hi : c.indexOf? name with
    | none => rfl
    | some i =>
      obtain ⟨p, hp, rfl⟩ := indexOf?_eq_some_iff.1 hi
      exact absurd (Pack.name_mem_names (List.mem_of_getElem? hp)) h

/-- A search by something that tells packs apart finds the one pack that has it. -/
theorem find?_eq_some_iff_of_inj {packs : List Pack} {f : Pack → String} {a : String}
    (hinj : ∀ q ∈ packs, ∀ r ∈ packs, f q = f r → q = r) :
    packs.find? (f · = a) = some p ↔ p ∈ packs ∧ f p = a := by
  constructor
  · intro h
    exact ⟨List.mem_of_find?_eq_some h, by simpa using List.find?_some h⟩
  · rintro ⟨hp, rfl⟩
    cases hq : packs.find? (f · = f p) with
    | none => exact absurd (List.find?_eq_none.1 hq p hp) (by simp)
    | some q =>
      have hf : f q = f p := by simpa using List.find?_some hq
      rw [hinj q (List.mem_of_find?_eq_some hq) p hp hf]

theorem get?_eq_some_iff : c.get? name = some p ↔ p ∈ c.packs ∧ p.name = name :=
  find?_eq_some_iff_of_inj fun _ hq _ hr => name_inj hq hr

theorem mem_indexesOf {names : List String} :
    i ∈ c.indexesOf names ↔ ∃ p, c.packs[i]? = some p ∧ p.name ∈ names := by
  rw [indexesOf, List.mem_filterMap]
  constructor
  · rintro ⟨name, hname, hi⟩
    obtain ⟨p, hp, rfl⟩ := indexOf?_eq_some_iff.1 hi
    exact ⟨p, hp, hname⟩
  · rintro ⟨p, hp, hname⟩
    exact ⟨p.name, hname, indexOf?_eq_some_iff.2 ⟨p, hp, rfl⟩⟩

theorem lt_of_mem_indexesOf {names : List String} :
    ∀ i ∈ c.indexesOf names, i < c.packs.length := by
  intro i hi
  obtain ⟨p, hp, -⟩ := mem_indexesOf.1 hi
  exact lt_of_getElem? hp

theorem mem_packsAt {indexes : List Nat} :
    p ∈ c.packsAt indexes ↔ ∃ i ∈ indexes, c.packs[i]? = some p := List.mem_filterMap

theorem packsAt_range (c : Catalog) : c.packsAt (List.range c.packs.length) = c.packs := by
  have hmap : (List.range c.packs.length).map (c.packs[·]?) = c.packs.map some :=
    List.ext_getElem (by simp) (by simp)
  have hid : c.packsAt (List.range c.packs.length) =
      ((List.range c.packs.length).map (c.packs[·]?)).filterMap id := by
    rw [List.filterMap_map]
    rfl
  rw [hid, hmap, List.filterMap_map]
  exact List.filterMap_some

theorem packsAt_sublist {indexes : List Nat} (h : indexes.Sublist (List.range c.packs.length)) :
    (c.packsAt indexes).Sublist c.packs := by
  rw [← c.packsAt_range]
  exact h.filterMap _

theorem mem_packsAt_indexesOf {names : List String} :
    p ∈ c.packsAt (c.indexesOf names) ↔ p ∈ c.packs ∧ p.name ∈ names := by
  rw [mem_packsAt]
  constructor
  · rintro ⟨i, hi, hp⟩
    obtain ⟨q, hq, hname⟩ := mem_indexesOf.1 hi
    rw [hp] at hq
    rw [← Option.some.inj hq] at hname
    exact ⟨List.mem_of_getElem? hp, hname⟩
  · rintro ⟨hp, hname⟩
    obtain ⟨i, hi⟩ := List.mem_iff_getElem?.1 hp
    exact ⟨i, mem_indexesOf.2 ⟨p, hi, hname⟩, hi⟩

theorem mem_packsAt_indexesOf_names {packs : List Pack} (hc : ∀ q ∈ packs, q ∈ c.packs) :
    p ∈ c.packsAt (c.indexesOf (Pack.names packs)) ↔ p ∈ packs := by
  rw [mem_packsAt_indexesOf]
  constructor
  · rintro ⟨hp, hname⟩
    exact (name_mem_names_iff hc hp).1 hname
  · intro hp
    exact ⟨hc p hp, Pack.name_mem_names hp⟩

/-! ## Keys -/

theorem key_of_id {id : String} (h : p.id = some id) : p.key = id := by rw [Pack.key, h]; rfl

theorem key_of_no_id (h : p.id = none) : p.key = p.name := by rw [Pack.key, h]; rfl

theorem id_inj {id : String} (hp : p ∈ c.packs) (hq : q ∈ c.packs) (hpi : p.id = some id)
    (hqi : q.id = some id) : p = q := by
  have hids := c.ids_nodup
  rw [List.Nodup, List.pairwise_filterMap] at hids
  have : Std.Symm fun a b : Pack => ∀ x, a.id = some x → ∀ y, b.id = some y → x ≠ y :=
    ⟨fun a b h x hx y hy => (h y hy x hx).symm⟩
  by_contra hne
  exact hids.forall hp hq hne id hpi id hqi rfl

/-- Ids and names share one space of keys: an id that is the name of a pack is its own id. -/
theorem key_inj (hp : p ∈ c.packs) (hq : q ∈ c.packs) (h : p.key = q.key) : p = q := by
  cases hpi : p.id with
  | none =>
    cases hqi : q.id with
    | none => exact name_inj hp hq (by rw [← key_of_no_id hpi, h, key_of_no_id hqi])
    | some id =>
      rw [key_of_no_id hpi, key_of_id hqi] at h
      exact name_inj hp hq (h.trans (c.id_not_name q hq id hqi (h ▸ Pack.name_mem_names hp)))
  | some id =>
    cases hqi : q.id with
    | none =>
      rw [key_of_id hpi, key_of_no_id hqi] at h
      exact name_inj hp hq ((c.id_not_name p hp id hpi (h ▸ Pack.name_mem_names hq)).symm.trans h)
    | some id' =>
      rw [key_of_id hpi, key_of_id hqi] at h
      exact id_inj hp hq hpi (h ▸ hqi)

theorem keys_nodup (c : Catalog) : (c.packs.map Pack.key).Nodup :=
  c.packs_nodup.map_on fun _ hp _ hq => key_inj hp hq

theorem getByKey?_eq_some_iff {key : String} :
    c.getByKey? key = some p ↔ p ∈ c.packs ∧ p.key = key :=
  find?_eq_some_iff_of_inj fun _ hq _ hr => key_inj hq hr

end Catalog

end PackChoice
