/-!
Filtering by a test that may fail. The elements are tested from the first to the last, and the
first failure is the result.
-/

namespace PackChoice

/-- The elements that pass a test, or the first failure of the test. -/
def sift {α ε : Type} (p : α → Except ε Bool) : List α → Except ε (List α)
  | [] => .ok []
  | x :: xs =>
    match p x with
    | .error e => .error e
    | .ok keep =>
      match sift p xs with
      | .error e => .error e
      | .ok kept => .ok (if keep then x :: kept else kept)

theorem sift_eq_filter {α ε : Type} {p : α → Except ε Bool} {q : α → Bool} {xs : List α}
    (h : ∀ x ∈ xs, p x = .ok (q x)) : sift p xs = .ok (xs.filter q) := by
  induction xs with
  | nil => rfl
  | cons x xs ih =>
    rw [sift, h x List.mem_cons_self, ih fun y hy => h y (List.mem_cons_of_mem _ hy)]
    simp only [List.filter_cons]

theorem ok_of_sift_eq_ok {α ε : Type} {p : α → Except ε Bool} {xs kept : List α}
    (h : sift p xs = .ok kept) : ∀ x ∈ xs, ∃ b, p x = .ok b := by
  induction xs generalizing kept with
  | nil => simp
  | cons x xs ih =>
    rw [sift] at h
    split at h
    · cases h
    · next b hb =>
      split at h
      · cases h
      · next hs =>
        intro y hy
        rcases List.mem_cons.1 hy with rfl | hy
        · exact ⟨b, hb⟩
        · exact ih hs y hy

end PackChoice
