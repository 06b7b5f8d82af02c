/-!
The order of names: by the code points of their characters, a proper beginning first. It is the
order in which sorted lists, group tables and documents list names. Main statements: the order
is irreflexive, transitive and total (`precedes_irrefl`, `precedes_trans`, `precedes_total`).
-/

namespace PackChoice.Text

/-- Whether the first text comes strictly before the second. -/
def charsPrecede : List Char → List Char → Bool
  | _, [] => false
  | [], _ :: _ => true
  | a :: as, b :: bs => decide (a.toNat < b.toNat) || (a.toNat == b.toNat && charsPrecede as bs)

/-- Whether the first name comes strictly before the second. -/
def precedes (a b : String) : Bool := charsPrecede a.toList b.toList

theorem charsPrecede_irrefl (as : List Char) : charsPrecede as as = false := by
  induction as with
  | nil => rfl
  | cons a as ih => simp [charsPrecede, ih]

theorem charsPrecede_trans {as bs cs : List Char} (hab : charsPrecede as bs = true)
    (hbc : charsPrecede bs cs = true) : charsPrecede as cs = true := by
  induction as generalizing bs cs with
  | nil =>
    cases bs with
    | nil => simp [charsPrecede] at hab
    | cons b bs => cases cs <;> simp_all [charsPrecede]
  | cons a as ih =>
    cases bs with
    | nil => simp [charsPrecede] at hab
    | cons b bs =>
      cases cs with
      | nil => simp [charsPrecede] at hbc
      | cons c cs =>
        simp only [charsPrecede, Bool.or_eq_true, Bool.and_eq_true, decide_eq_true_eq,
          beq_iff_eq] at *
        rcases hab with h | ⟨h, hr⟩ <;> rcases hbc with h' | ⟨h', hr'⟩
        · left; omega
        · left; omega
        · left; omega
        · right; exact ⟨by omega, ih hr hr'⟩

theorem charsPrecede_total {as bs : List Char} (hne : as ≠ bs)
    (h : charsPrecede as bs = false) : charsPrecede bs as = true := by
  induction as generalizing bs with
  | nil => cases bs <;> simp_all [charsPrecede]
  | cons a as ih =>
    cases bs with
    | nil => rfl
    | cons b bs =>
      simp only [charsPrecede, Bool.or_eq_true, Bool.and_eq_true, decide_eq_true_eq, beq_iff_eq,
        Bool.or_eq_false_iff, Bool.and_eq_false_iff, decide_eq_false_iff_not] at *
      obtain ⟨hlt, hor⟩ := h
      rcases Nat.lt_or_eq_of_le (Nat.le_of_not_lt hlt) with hl | he
      · exact .inl hl
      · have hab : a = b := Char.toNat_inj.1 he.symm
        refine .inr ⟨he, ih (by simpa [hab] using hne) ?_⟩
        rcases hor with hor | hor
        · simp [he] at hor
        · exact hor

theorem precedes_irrefl (a : String) : precedes a a = false := charsPrecede_irrefl _

theorem precedes_trans {a b c : String} (hab : precedes a b = true) (hbc : precedes b c = true) :
    precedes a c = true := charsPrecede_trans hab hbc

theorem precedes_total {a b : String} (hne : a ≠ b) (h : precedes a b = false) :
    precedes b a = true :=
  charsPrecede_total (fun he => hne (String.toList_inj.1 he)) h

theorem precedes_asymm {a b : String} (h : precedes a b = true) : precedes b a = false := by
  cases hba : precedes b a with
  | false => rfl
  | true => exact absurd (precedes_trans h hba) (by simp [precedes_irrefl])

theorem precedes_ne {a b : String} (h : precedes a b = true) : a ≠ b := by
  rintro rfl
  simp [precedes_irrefl] at h

end PackChoice.Text
