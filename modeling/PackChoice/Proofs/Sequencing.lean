import Mathlib.Data.List.Forall2
import PackChoice.Sift

/-!
Steps that may fail, one after another. A sequence that succeeds has succeeded in each step
(`bind_eq_ok_iff`, `mapM_eq_ok_iff`), and what a step brings about and the others keep holds in
the end (`foldlM_brings`); one that fails fails as its first step does that fails at all
(`bind_eq_error_iff`, `first_of_mapM_eq_error`, `exists_of_forM_eq_error`). Filtering by a test
that may fail is such a sequence (`sift_ok`, `sift_eq_ok`).
-/

namespace PackChoice

variable {α β ε : Type}

theorem bind_eq_ok_iff {x : Except ε α} {f : α → Except ε β} {b : β} :
    x >>= f = .ok b ↔ ∃ a, x = .ok a ∧ f a = .ok b := by
  cases x <;> simp [bind, Except.bind]

theorem bind_eq_error_iff {x : Except ε α} {f : α → Except ε β} {e : ε} :
    x >>= f = .error e ↔ x = .error e ∨ ∃ a, x = .ok a ∧ f a = .error e := by
  cases x <;> simp [bind, Except.bind]

theorem pure_eq_ok_iff {a b : α} : (pure a : Except ε α) = .ok b ↔ a = b := by
  simp [pure, Except.pure]

theorem mapError_eq_ok_iff {δ : Type} {x : Except ε α} {f : ε → δ} {a : α} :
    x.mapError f = .ok a ↔ x = .ok a := by
  cases x <;> simp [Except.mapError]

theorem exists_eq_error_iff {x : Except ε α} : (∃ e, x = .error e) ↔ ¬∃ a, x = .ok a := by
  cases x <;> simp

theorem eq_ok_get {x : Except ε α} (h : x.toOption.isSome = true) :
    x = .ok (x.toOption.get h) := by
  cases x with
  | error e => cases h
  | ok a => rfl

theorem ok_of_toOption_map {x : Except ε α} {f : α → β} {b : β}
    (h : x.toOption.map f = some b) : ∃ a, x = .ok a ∧ f a = b := by
  cases x with
  | error e => cases h
  | ok a => exact ⟨a, rfl, Option.some.inj h⟩

/-- What holds of one value with which a step succeeds holds of any. -/
theorem of_exists_ok {x : Except ε α} {P : α → Prop} {a : α} (h : ∃ b, x = .ok b ∧ P b)
    (hx : x = .ok a) : P a := by
  obtain ⟨b, hb, hP⟩ := h
  rw [hx] at hb
  exact Except.ok.inj hb ▸ hP

theorem mapM_ok {f : α → Except ε β} {xs : List α} (h : ∀ x ∈ xs, ∃ y, f x = .ok y) :
    ∃ ys, xs.mapM f = .ok ys := by
  induction xs with
  | nil => exact ⟨[], rfl⟩
  | cons x xs ih =>
    obtain ⟨y, hy⟩ := h x List.mem_cons_self
    obtain ⟨ys, hys⟩ := ih fun z hz => h z (List.mem_cons_of_mem _ hz)
    refine ⟨y :: ys, ?_⟩
    rw [List.mapM_cons, hy, hys]
    rfl

theorem mapM_map_eq_ok {γ : Type} {e : γ → α} {f : α → Except ε β} {g : γ → β} {xs : List γ}
    (h : ∀ x ∈ xs, f (e x) = .ok (g x)) : (xs.map e).mapM f = .ok (xs.map g) := by
  induction xs with
  | nil => rfl
  | cons x xs ih =>
    have hxs := ih fun y hy => h y (List.mem_cons_of_mem _ hy)
    rw [List.map_cons, List.mapM_cons, h x List.mem_cons_self, hxs]
    rfl

/-- A sequence succeeds with what its steps succeed with, one by one and in order. -/
theorem mapM_eq_ok_iff {f : α → Except ε β} {xs : List α} {ys : List β} :
    xs.mapM f = .ok ys ↔ List.Forall₂ (fun x y => f x = .ok y) xs ys := by
  induction xs generalizing ys with
  | nil => rw [List.mapM_nil, pure_eq_ok_iff, List.forall₂_nil_left_iff, eq_comm]
  | cons x xs ih =>
    rw [List.mapM_cons, bind_eq_ok_iff, List.forall₂_cons_left_iff]
    constructor
    · rintro ⟨y, hy, h⟩
      obtain ⟨rest, hrest, h⟩ := bind_eq_ok_iff.1 h
      exact ⟨y, rest, hy, ih.1 hrest, (pure_eq_ok_iff.1 h).symm⟩
    · rintro ⟨y, rest, hy, hrest, rfl⟩
      exact ⟨y, hy, bind_eq_ok_iff.2 ⟨rest, ih.2 hrest, rfl⟩⟩

theorem length_of_mapM_eq_ok {f : α → Except ε β} {xs : List α} {ys : List β}
    (h : xs.mapM f = .ok ys) : ys.length = xs.length :=
  (mapM_eq_ok_iff.1 h).length_eq.symm

theorem mem_of_mapM_eq_ok {f : α → Except ε β} {xs : List α} {ys : List β}
    (h : xs.mapM f = .ok ys) {y : β} : y ∈ ys ↔ ∃ x ∈ xs, f x = .ok y := by
  induction xs generalizing ys with
  | nil =>
    rw [List.mapM_nil, pure_eq_ok_iff] at h
    simp [← h]
  | cons x xs ih =>
    rw [List.mapM_cons, bind_eq_ok_iff] at h
    obtain ⟨z, hz, h⟩ := h
    obtain ⟨zs, hzs, h⟩ := bind_eq_ok_iff.1 h
    rw [← pure_eq_ok_iff.1 h, List.mem_cons, ih hzs]
    simp only [List.mem_cons, exists_eq_or_imp, hz, Except.ok.injEq, @eq_comm _ z y]

/-- A sequence succeeds with what each of its steps succeeds with. -/
theorem mapM_ok_of_forall {f : α → Except ε β} {xs : List α} {P : β → Prop}
    (h : ∀ x ∈ xs, ∃ y, f x = .ok y ∧ P y) :
    ∃ ys, xs.mapM f = .ok ys ∧ ys.length = xs.length ∧ ∀ y ∈ ys, P y := by
  obtain ⟨ys, hys⟩ := mapM_ok fun x hx => (h x hx).imp fun _ hy => hy.1
  refine ⟨ys, hys, length_of_mapM_eq_ok hys, fun y hy => ?_⟩
  obtain ⟨x, hx, hr⟩ := (mem_of_mapM_eq_ok hys).1 hy
  exact of_exists_ok (h x hx) hr

theorem exists_of_mapM_eq_ok {f : α → Except ε β} {xs : List α} {ys : List β}
    (h : xs.mapM f = .ok ys) : ∀ x ∈ xs, ∃ y, f x = .ok y := by
  induction xs generalizing ys with
  | nil => simp
  | cons x xs ih =>
    rw [List.mapM_cons, bind_eq_ok_iff] at h
    obtain ⟨z, hz, h⟩ := h
    obtain ⟨zs, hzs, -⟩ := bind_eq_ok_iff.1 h
    intro y hy
    rcases List.mem_cons.1 hy with rfl | hy
    · exact ⟨z, hz⟩
    · exact ih hzs y hy

/-- A sequence fails as the first of its steps does that fails at all. -/
theorem first_of_mapM_eq_error {f : α → Except ε β} {xs : List α} {e : ε}
    (h : xs.mapM f = .error e) : ∃ before x after, xs = before ++ x :: after ∧
      (∀ y ∈ before, ∃ z, f y = .ok z) ∧ f x = .error e := by
  induction xs with
  | nil => cases h
  | cons x xs ih =>
    rw [List.mapM_cons] at h
    rcases bind_eq_error_iff.1 h with hx | ⟨z, hz, h⟩
    · exact ⟨[], x, xs, rfl, fun y hy => absurd hy List.not_mem_nil, hx⟩
    · rcases bind_eq_error_iff.1 h with hxs | ⟨zs, -, h⟩
      · obtain ⟨before, y, after, rfl, hbefore, hy⟩ := ih hxs
        exact ⟨x :: before, y, after, rfl, List.forall_mem_cons.2 ⟨⟨z, hz⟩, hbefore⟩, hy⟩
      · cases h

theorem exists_of_mapM_eq_error {f : α → Except ε β} {xs : List α} {e : ε}
    (h : xs.mapM f = .error e) : ∃ x ∈ xs, f x = .error e := by
  obtain ⟨before, x, after, rfl, -, hx⟩ := first_of_mapM_eq_error h
  exact ⟨x, List.mem_append_right _ List.mem_cons_self, hx⟩

theorem forM_eq_ok_iff {f : α → Except ε Unit} {xs : List α} :
    xs.forM f = .ok () ↔ ∀ x ∈ xs, f x = .ok () := by
  induction xs with
  | nil => simp [pure, Except.pure]
  | cons x xs ih =>
    rw [List.forM_eq_forM, List.forM_cons, bind_eq_ok_iff, ← List.forM_eq_forM, ih,
      List.forall_mem_cons]
    constructor
    · rintro ⟨⟨⟩, hx, hxs⟩
      exact ⟨hx, hxs⟩
    · rintro ⟨hx, hxs⟩
      exact ⟨(), hx, hxs⟩

theorem exists_of_forM_eq_error {f : α → Except ε Unit} {xs : List α} {e : ε}
    (h : xs.forM f = .error e) : ∃ x ∈ xs, f x = .error e := by
  induction xs with
  | nil => cases h
  | cons x xs ih =>
    rw [List.forM_eq_forM, List.forM_cons, ← List.forM_eq_forM] at h
    rcases bind_eq_error_iff.1 h with hx | ⟨u, -, h⟩
    · exact ⟨x, List.mem_cons_self, hx⟩
    · obtain ⟨y, hy, hfy⟩ := ih h
      exact ⟨y, List.mem_cons_of_mem _ hy, hfy⟩

/-- What each step of a sequence keeps, the whole sequence keeps. -/
theorem foldlM_keeps {P : β → Prop} {f : β → α → Except ε β} {xs : List α} {b b' : β}
    (step : ∀ x ∈ xs, ∀ a a', P a → f a x = .ok a' → P a') (hb : P b)
    (h : xs.foldlM f b = .ok b') : P b' := by
  induction xs generalizing b with
  | nil =>
    rw [List.foldlM_nil, pure_eq_ok_iff] at h
    rw [← h]
    exact hb
  | cons x xs ih =>
    rw [List.foldlM_cons, bind_eq_ok_iff] at h
    obtain ⟨a, ha, h⟩ := h
    exact ih (fun y hy => step y (List.mem_cons_of_mem _ hy))
      (step x List.mem_cons_self b a hb ha) h

theorem foldlM_ok {f : β → α → Except ε β} {xs : List α} (b : β)
    (h : ∀ x ∈ xs, ∀ a, ∃ a', f a x = .ok a') : ∃ b', xs.foldlM f b = .ok b' := by
  induction xs generalizing b with
  | nil => exact ⟨b, rfl⟩
  | cons x xs ih =>
    obtain ⟨a, ha⟩ := h x List.mem_cons_self b
    obtain ⟨b', hb'⟩ := ih a fun y hy => h y (List.mem_cons_of_mem _ hy)
    exact ⟨b', by rw [List.foldlM_cons, ha]; exact hb'⟩

theorem exists_of_foldlM_eq_ok {f : β → α → Except ε β} {xs : List α} {b b' : β}
    (h : xs.foldlM f b = .ok b') : ∀ x ∈ xs, ∃ a a', f a x = .ok a' := by
  induction xs generalizing b with
  | nil => simp
  | cons x xs ih =>
    rw [List.foldlM_cons, bind_eq_ok_iff] at h
    obtain ⟨a, ha, h⟩ := h
    intro y hy
    rcases List.mem_cons.1 hy with rfl | hy
    · exact ⟨b, a, ha⟩
    · exact ih h y hy

/-- Steps that hand a value on fail as the first of them does that fails, given what the steps before
it have made of the value. -/
theorem first_of_foldlM_eq_error {f : β → α → Except ε β} {xs : List α} {b : β} {e : ε}
    (h : xs.foldlM f b = .error e) : ∃ before x after a, xs = before ++ x :: after ∧
      before.foldlM f b = .ok a ∧ f a x = .error e := by
  induction xs generalizing b with
  | nil => cases h
  | cons x xs ih =>
    rw [List.foldlM_cons] at h
    rcases bind_eq_error_iff.1 h with hx | ⟨a, ha, h⟩
    · exact ⟨[], x, xs, b, rfl, rfl, hx⟩
    · obtain ⟨before, y, after, a', rfl, hbefore, hy⟩ := ih h
      exact ⟨x :: before, y, after, a', rfl, by rw [List.foldlM_cons, ha]; exact hbefore, hy⟩

/-- What one step of a sequence brings about and every step keeps holds in the end. -/
theorem foldlM_brings {P : β → Prop} {f : β → α → Except ε β} {xs : List α} {x : α} {b b' : β}
    (hx : x ∈ xs) (brings : ∀ a a', f a x = .ok a' → P a')
    (keeps : ∀ y ∈ xs, ∀ a a', P a → f a y = .ok a' → P a') (h : xs.foldlM f b = .ok b') :
    P b' := by
  induction xs generalizing b with
  | nil => cases hx
  | cons y xs ih =>
    rw [List.foldlM_cons, bind_eq_ok_iff] at h
    obtain ⟨a, ha, h⟩ := h
    have hkeeps : ∀ z ∈ xs, ∀ a a', P a → f a z = .ok a' → P a' :=
      fun z hz => keeps z (List.mem_cons_of_mem _ hz)
    rcases List.mem_cons.1 hx with rfl | hx
    · exact foldlM_keeps hkeeps (brings b a ha) h
    · exact ih hx hkeeps h

theorem sift_ok {p : α → Except ε Bool} {xs : List α} (h : ∀ x ∈ xs, ∃ b, p x = .ok b) :
    ∃ kept, sift p xs = .ok kept := by
  induction xs with
  | nil => exact ⟨[], rfl⟩
  | cons x xs ih =>
    obtain ⟨b, hb⟩ := h x List.mem_cons_self
    obtain ⟨kept, hk⟩ := ih fun y hy => h y (List.mem_cons_of_mem _ hy)
    rw [sift, hb, hk]
    exact ⟨_, rfl⟩

theorem sift_eq_ok {p : α → Except ε Bool} {xs kept : List α} (h : sift p xs = .ok kept) :
    kept.Sublist xs ∧ ∀ x, x ∈ kept ↔ x ∈ xs ∧ p x = .ok true := by
  induction xs generalizing kept with
  | nil =>
    obtain rfl := Except.ok.inj h
    simp
  | cons y xs ih =>
    obtain ⟨b, hb⟩ := ok_of_sift_eq_ok h y List.mem_cons_self
    rw [sift, hb] at h
    cases hk : sift p xs with
    | error e =>
      rw [hk] at h
      cases h
    | ok rest =>
      rw [hk] at h
      obtain rfl := Except.ok.inj h
      obtain ⟨hsub, hmem⟩ := ih hk
      cases b with
      | true =>
        refine ⟨hsub.cons_cons y, fun x => ?_⟩
        rw [if_pos rfl, List.mem_cons, List.mem_cons, hmem]
        grind
      | false =>
        refine ⟨hsub.cons y, fun x => ?_⟩
        rw [if_neg Bool.false_ne_true, List.mem_cons, hmem]
        grind

end PackChoice
