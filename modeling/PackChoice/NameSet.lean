import PackChoice.Sorted

/-!
Finite sets of names, listed in the order of names. Two sets with the same members are equal
(`NameSet.ext`), since the list is in strict order.
-/

namespace PackChoice

/-- A finite set of names. -/
structure NameSet where
  /-- The members in order. -/
  toList : List String
  increasing : Sorted.Increasing id toList
deriving DecidableEq

namespace NameSet

/-- No names. -/
def empty : NameSet := ⟨[], .nil⟩

instance : EmptyCollection NameSet := ⟨empty⟩

instance : Inhabited NameSet := ⟨empty⟩

instance : Membership String NameSet := ⟨fun s name => name ∈ s.toList⟩

/-- Whether a name is a member. -/
def contains (s : NameSet) (name : String) : Bool := decide (name ∈ s.toList)

/-- The set with one more member. -/
def insert (s : NameSet) (name : String) : NameSet :=
  ⟨Sorted.insert id name s.toList, s.increasing.insert⟩

/-- The set of the listed names. -/
def ofList (names : List String) : NameSet :=
  ⟨Sorted.ofList id names, Sorted.increasing_ofList names⟩

/-- The set with the listed names as further members. -/
def insertAll (s : NameSet) (names : List String) : NameSet := names.foldl insert s

/-- The members that pass a test. -/
def filter (p : String → Bool) (s : NameSet) : NameSet :=
  ⟨s.toList.filter p, s.increasing.filter p⟩

/-- The set without a name. -/
def erase (s : NameSet) (name : String) : NameSet := s.filter (· ≠ name)

/-- Whether there are no members. -/
def isEmpty (s : NameSet) : Bool := s.toList.isEmpty

theorem mem_toList {s : NameSet} {name : String} : name ∈ s.toList ↔ name ∈ s := Iff.rfl

@[simp] theorem contains_eq_true {s : NameSet} {name : String} :
    s.contains name = true ↔ name ∈ s := by simp [contains, mem_toList]

theorem ext {s t : NameSet} (h : ∀ name, name ∈ s ↔ name ∈ t) : s = t := by
  obtain ⟨xs, hx⟩ := s
  obtain ⟨ys, hy⟩ := t
  simp only [mk.injEq]
  exact hx.ext hy h

@[simp] theorem mem_empty {name : String} : name ∈ (∅ : NameSet) ↔ False := by
  simp [← mem_toList, EmptyCollection.emptyCollection, empty]

@[simp] theorem mem_insert {s : NameSet} {a name : String} :
    name ∈ s.insert a ↔ name = a ∨ name ∈ s := by
  simp only [← mem_toList, insert, Sorted.mem_insert_iff s.increasing, id]
  constructor
  · rintro (h | ⟨h, -⟩)
    · exact .inl h
    · exact .inr h
  · rintro (h | h)
    · exact .inl h
    · by_cases he : name = a
      · exact .inl he
      · exact .inr ⟨h, he⟩

@[simp] theorem mem_insertAll {s : NameSet} {names : List String} {name : String} :
    name ∈ s.insertAll names ↔ name ∈ names ∨ name ∈ s := by
  induction names generalizing s with
  | nil => simp [insertAll]
  | cons a names ih =>
    rw [insertAll, List.foldl_cons, ← insertAll, ih]
    simp only [mem_insert, List.mem_cons]
    grind

theorem ofList_eq_insertAll (names : List String) :
    ofList names = (∅ : NameSet).insertAll names := by
  suffices h : ∀ s : NameSet, names.foldl (fun sorted x => Sorted.insert id x sorted) s.toList
      = (s.insertAll names).toList by
    have := h ∅
    simp only [ofList, Sorted.ofList]
    congr
  induction names with
  | nil => intro s; rfl
  | cons a names ih => intro s; exact ih (s.insert a)

@[simp] theorem mem_ofList {names : List String} {name : String} :
    name ∈ ofList names ↔ name ∈ names := by
  simp [ofList_eq_insertAll]

@[simp] theorem ofList_toList (s : NameSet) : ofList s.toList = s :=
  ext fun _ => mem_ofList

@[simp] theorem mem_filter {s : NameSet} {p : String → Bool} {name : String} :
    name ∈ s.filter p ↔ name ∈ s ∧ p name = true := by
  simp [← mem_toList, filter]

@[simp] theorem mem_erase {s : NameSet} {a name : String} :
    name ∈ s.erase a ↔ name ∈ s ∧ name ≠ a := by
  simp [erase]

end NameSet

end PackChoice
