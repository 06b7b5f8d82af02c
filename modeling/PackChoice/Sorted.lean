import PackChoice.Text.Order

/-!
Lists in the strict order of a name that each element carries, its key. `insert` keeps such a
list in order, and an element gives way to a new one with the same key. Main statements:
membership after an insertion (`mem_insert_iff`), that the order is kept (`increasing_insert`),
and that the order and the members fix the list (`Increasing.ext`).
-/

namespace PackChoice.Sorted

open Text (precedes)

variable {α : Type} {key : α → String}

/-- The keys grow strictly along the list. -/
def Increasing (key : α → String) (xs : List α) : Prop :=
  xs.Pairwise fun a b => precedes (key a) (key b) = true

/-- The list with `x` put in its place, instead of an element with the same key. -/
def insert (key : α → String) (x : α) : List α → List α
  | [] => [x]
  | y :: ys =>
    if key x = key y then x :: ys
    else if precedes (key x) (key y) then x :: y :: ys
    else y :: insert key x ys

/-- The elements in order; of several with one key the last. -/
def ofList (key : α → String) (xs : List α) : List α :=
  xs.foldl (fun sorted x => insert key x sorted) []

theorem Increasing.nil : Increasing key ([] : List α) := List.Pairwise.nil

theorem mem_of_mem_insert {x a : α} {xs : List α} (h : a ∈ insert key x xs) :
    a = x ∨ a ∈ xs := by
  induction xs with
  | nil => simpa [insert] using h
  | cons y ys ih =>
    rw [insert] at h
    split at h
    · rcases List.mem_cons.1 h with h | h
      · exact .inl h
      · exact .inr (List.mem_cons_of_mem _ h)
    · split at h
      · simpa using h
      · rcases List.mem_cons.1 h with h | h
        · exact .inr (h ▸ List.mem_cons_self)
        · exact (ih h).imp_right (List.mem_cons_of_mem _)

theorem mem_insert_self (x : α) (xs : List α) : x ∈ insert key x xs := by
  induction xs with
  | nil => simp [insert]
  | cons y ys ih =>
    rw [insert]
    split
    · simp
    · split
      · simp
      · exact List.mem_cons_of_mem _ ih

theorem mem_insert_of_ne {x a : α} {xs : List α} (h : a ∈ xs) (hne : key a ≠ key x) :
    a ∈ insert key x xs := by
  induction xs with
  | nil => cases h
  | cons y ys ih =>
    rw [insert]
    rcases List.mem_cons.1 h with rfl | h
    · rw [if_neg (Ne.symm hne)]
      split <;> simp
    · split
      · exact List.mem_cons_of_mem _ h
      · split
        · exact List.mem_cons_of_mem _ (List.mem_cons_of_mem _ h)
        · exact List.mem_cons_of_mem _ (ih h)

theorem Increasing.insert {x : α} {xs : List α} (h : Increasing key xs) :
    Increasing key (insert key x xs) := by
  induction xs with
  | nil => simp [Sorted.insert, Increasing]
  | cons y ys ih =>
    obtain ⟨hy, hys⟩ := List.pairwise_cons.1 h
    rw [Sorted.insert]
    split
    · next he => exact List.pairwise_cons.2 ⟨fun a ha => by rw [he]; exact hy a ha, hys⟩
    · next hne =>
      split
      · next hlt =>
        refine List.pairwise_cons.2 ⟨fun a ha => ?_, h⟩
        rcases List.mem_cons.1 ha with rfl | ha
        · exact hlt
        · exact Text.precedes_trans hlt (hy a ha)
      · next hlt =>
        refine List.pairwise_cons.2 ⟨fun a ha => ?_, ih hys⟩
        rcases mem_of_mem_insert ha with rfl | ha
        · exact Text.precedes_total hne (by simpa using hlt)
        · exact hy a ha

theorem increasing_foldl_insert {sorted : List α} (xs : List α) (h : Increasing key sorted) :
    Increasing key (xs.foldl (fun sorted x => Sorted.insert key x sorted) sorted) := by
  induction xs generalizing sorted with
  | nil => exact h
  | cons x xs ih => exact ih h.insert

theorem increasing_ofList (xs : List α) : Increasing key (ofList key xs) :=
  increasing_foldl_insert xs .nil

theorem mem_of_mem_ofList {a : α} {xs : List α} (h : a ∈ ofList key xs) : a ∈ xs := by
  suffices hs : ∀ sorted : List α,
      a ∈ xs.foldl (fun sorted x => insert key x sorted) sorted → a ∈ xs ∨ a ∈ sorted by
    exact (hs [] h).resolve_right List.not_mem_nil
  clear h
  induction xs with
  | nil => exact fun _ h => .inr h
  | cons x xs ih =>
    intro sorted h
    rcases ih _ h with h | h
    · exact .inl (List.mem_cons_of_mem _ h)
    · rcases mem_of_mem_insert h with rfl | h
      · exact .inl List.mem_cons_self
      · exact .inr h

theorem mem_ofList_of_unique {a : α} {xs : List α} (h : a ∈ xs)
    (hu : ∀ b ∈ xs, key b = key a → b = a) : a ∈ ofList key xs := by
  suffices hs : ∀ sorted : List α, a ∈ xs ∨ a ∈ sorted →
      a ∈ xs.foldl (fun sorted x => insert key x sorted) sorted by
    exact hs [] (.inl h)
  clear h
  induction xs with
  | nil => exact fun _ h => h.resolve_left List.not_mem_nil
  | cons x xs ih =>
    intro sorted h
    refine ih (fun b hb => hu b (List.mem_cons_of_mem _ hb)) _ ?_
    rcases h with h | h
    · rcases List.mem_cons.1 h with rfl | h
      · exact .inr (mem_insert_self _ _)
      · exact .inl h
    · by_cases hx : key x = key a
      · rw [hu x List.mem_cons_self hx]
        exact .inr (mem_insert_self _ _)
      · exact .inr (mem_insert_of_ne h (Ne.symm hx))

theorem Increasing.key_inj {a b : α} {xs : List α} (h : Increasing key xs) (ha : a ∈ xs)
    (hb : b ∈ xs) (hk : key a = key b) : a = b := by
  induction xs with
  | nil => cases ha
  | cons y ys ih =>
    obtain ⟨hy, hys⟩ := List.pairwise_cons.1 h
    rcases List.mem_cons.1 ha with hay | ha <;> rcases List.mem_cons.1 hb with hby | hb
    · rw [hay, hby]
    · exact absurd (hay ▸ hk) (Text.precedes_ne (hy b hb))
    · exact absurd (hby ▸ hk.symm) (Text.precedes_ne (hy a ha))
    · exact ih hys ha hb

theorem Increasing.nodup {xs : List α} (h : Increasing key xs) : xs.Nodup :=
  h.imp fun hab he => Text.precedes_ne hab (congrArg key he)

theorem mem_insert_iff {x a : α} {xs : List α} (h : Increasing key xs) :
    a ∈ insert key x xs ↔ a = x ∨ a ∈ xs ∧ key a ≠ key x := by
  constructor
  · intro ha
    rcases mem_of_mem_insert ha with rfl | hm
    · exact .inl rfl
    · by_cases hk : key a = key x
      · exact .inl (h.insert.key_inj ha (mem_insert_self x xs) hk)
      · exact .inr ⟨hm, hk⟩
  · rintro (rfl | ⟨hm, hk⟩)
    · exact mem_insert_self a xs
    · exact mem_insert_of_ne hm hk

theorem Increasing.ext {xs ys : List α} (hx : Increasing key xs) (hy : Increasing key ys)
    (h : ∀ a, a ∈ xs ↔ a ∈ ys) : xs = ys := by
  induction xs generalizing ys with
  | nil =>
    cases ys with
    | nil => rfl
    | cons y ys => exact absurd ((h y).2 List.mem_cons_self) (by simp)
  | cons x xs ih =>
    cases ys with
    | nil => exact absurd ((h x).1 List.mem_cons_self) (by simp)
    | cons y ys =>
      obtain ⟨hx1, hx2⟩ := List.pairwise_cons.1 hx
      obtain ⟨hy1, hy2⟩ := List.pairwise_cons.1 hy
      have hxy : x = y := by
        rcases List.mem_cons.1 ((h x).1 List.mem_cons_self) with he | hm
        · exact he
        · rcases List.mem_cons.1 ((h y).2 List.mem_cons_self) with he | hm'
          · exact he.symm
          · have hlt := hx1 y hm'
            rw [Text.precedes_asymm (hy1 x hm)] at hlt
            cases hlt
      subst hxy
      refine congrArg _ (ih hx2 hy2 fun a => ⟨fun ha => ?_, fun ha => ?_⟩)
      · rcases List.mem_cons.1 ((h a).1 (List.mem_cons_of_mem _ ha)) with rfl | hm
        · exact absurd rfl (Text.precedes_ne (hx1 a ha))
        · exact hm
      · rcases List.mem_cons.1 ((h a).2 (List.mem_cons_of_mem _ ha)) with rfl | hm
        · exact absurd rfl (Text.precedes_ne (hy1 a ha))
        · exact hm

/-- A list in order is left as it is. -/
theorem Increasing.ofList_eq_self {xs : List α} (h : Increasing key xs) : ofList key xs = xs :=
  (increasing_ofList xs).ext h fun _ =>
    ⟨mem_of_mem_ofList, fun ha => mem_ofList_of_unique ha fun _ hb hk => h.key_inj hb ha hk⟩

end PackChoice.Sorted
