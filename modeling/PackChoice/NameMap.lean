import PackChoice.Sorted

/-!
Finite maps from names, listed in the order of the names. `get?` is the view of a map: maps with
the same `get?` are equal (`NameMap.ext`), and each operation has one law through it.
-/

namespace PackChoice

/-- A finite map from names to values. -/
structure NameMap (α : Type) where
  /-- The entries in the order of their names. -/
  toList : List (String × α)
  increasing : Sorted.Increasing Prod.fst toList
deriving DecidableEq

namespace NameMap

variable {α : Type}

/-- No entries. -/
def empty : NameMap α := ⟨[], .nil⟩

instance : EmptyCollection (NameMap α) := ⟨empty⟩

instance : Inhabited (NameMap α) := ⟨empty⟩

/-- The value under a name. -/
def get? (m : NameMap α) (name : String) : Option α :=
  (m.toList.find? (fun e => e.1 = name)).map Prod.snd

/-- Whether there is a value under a name. -/
def contains (m : NameMap α) (name : String) : Bool := (m.get? name).isSome

/-- The map with a value under a name, instead of any earlier one. -/
def insert (m : NameMap α) (name : String) (value : α) : NameMap α :=
  ⟨Sorted.insert Prod.fst (name, value) m.toList, m.increasing.insert⟩

/-- The map of the listed entries; of several with one name the last. -/
def ofList (entries : List (String × α)) : NameMap α :=
  ⟨Sorted.ofList Prod.fst entries, Sorted.increasing_ofList entries⟩

/-- The map without a name. -/
def erase (m : NameMap α) (name : String) : NameMap α :=
  ⟨m.toList.filter (·.1 ≠ name), m.increasing.filter _⟩

/-- The names in order. -/
def keys (m : NameMap α) : List String := m.toList.map Prod.fst

/-- The values in the order of their names. -/
def values (m : NameMap α) : List α := m.toList.map Prod.snd

/-- The number of entries. -/
def size (m : NameMap α) : Nat := m.toList.length

/-- Whether there are no entries. -/
def isEmpty (m : NameMap α) : Bool := m.toList.isEmpty

theorem get?_eq_some_iff {m : NameMap α} {name : String} {value : α} :
    m.get? name = some value ↔ (name, value) ∈ m.toList := by
  unfold get?
  constructor
  · intro h
    obtain ⟨e, he, rfl⟩ := Option.map_eq_some_iff.1 h
    have hk := List.find?_some he
    simp only [decide_eq_true_eq] at hk
    rw [← hk]
    exact List.mem_of_find?_eq_some he
  · intro h
    cases hf : m.toList.find? (fun e => e.1 = name) with
    | none => exact absurd (List.find?_eq_none.1 hf _ h) (by simp)
    | some e =>
      have hk := List.find?_some hf
      simp only [decide_eq_true_eq] at hk
      rw [m.increasing.key_inj (List.mem_of_find?_eq_some hf) h hk]
      rfl

theorem ext {m n : NameMap α} (h : ∀ name, m.get? name = n.get? name) : m = n := by
  have hm : ∀ a, a ∈ m.toList ↔ a ∈ n.toList := fun a => by
    rw [← Prod.eta a, ← get?_eq_some_iff, ← get?_eq_some_iff, h]
  obtain ⟨xs, hx⟩ := m
  obtain ⟨ys, hy⟩ := n
  simp only [mk.injEq]
  exact hx.ext hy hm

@[simp] theorem ofList_toList (m : NameMap α) : ofList m.toList = m := by
  obtain ⟨entries, h⟩ := m
  simp only [ofList, h.ofList_eq_self]

theorem contains_eq_true_iff {m : NameMap α} {name : String} :
    m.contains name = true ↔ name ∈ m.keys := by
  simp only [contains, Option.isSome_iff_exists, get?_eq_some_iff, keys, List.mem_map,
    Prod.exists, exists_and_right, exists_eq_right]

theorem mem_keys_iff {m : NameMap α} {name : String} :
    name ∈ m.keys ↔ ∃ value, m.get? name = some value := by
  rw [← contains_eq_true_iff, contains, Option.isSome_iff_exists]

theorem mem_keys_of_get? {m : NameMap α} {name : String} {value : α}
    (h : m.get? name = some value) : name ∈ m.keys := mem_keys_iff.2 ⟨value, h⟩

@[simp] theorem get?_empty (name : String) : (∅ : NameMap α).get? name = none := rfl

@[simp] theorem get?_insert (m : NameMap α) (a name : String) (value : α) :
    (m.insert a value).get? name = if name = a then some value else m.get? name := by
  split
  · next h =>
    rw [get?_eq_some_iff, h]
    exact Sorted.mem_insert_self _ _
  · next h =>
    apply Option.ext
    intro v
    rw [get?_eq_some_iff, get?_eq_some_iff, insert, Sorted.mem_insert_iff m.increasing]
    simp [h]

@[simp] theorem get?_erase (m : NameMap α) (a name : String) :
    (m.erase a).get? name = if name = a then none else m.get? name := by
  apply Option.ext
  intro v
  rw [get?_eq_some_iff, erase, List.mem_filter]
  split
  · next h => simp [h]
  · next h => simp [h, get?_eq_some_iff]

theorem insert_eq_self_iff {m : NameMap α} {name : String} {value : α} :
    m.insert name value = m ↔ m.get? name = some value := by
  constructor
  · intro h
    rw [← h, get?_insert, if_pos rfl]
  · intro h
    refine ext fun other => ?_
    rw [get?_insert]
    split
    · next he => rw [he, h]
    · rfl

/-- What was under a name does not matter once the name has been set. -/
theorem insert_congr {m n : NameMap α} {a : String} {value : α}
    (h : ∀ name, name ≠ a → m.get? name = n.get? name) : m.insert a value = n.insert a value := by
  refine ext fun name => ?_
  rw [get?_insert, get?_insert]
  split
  · rfl
  · next hne => exact h name hne

theorem mem_keys_insert {m : NameMap α} {a name : String} {value : α} :
    name ∈ (m.insert a value).keys ↔ name = a ∨ name ∈ m.keys := by
  rw [← contains_eq_true_iff, ← contains_eq_true_iff, contains, contains, get?_insert]
  split <;> simp_all

end NameMap

end PackChoice
