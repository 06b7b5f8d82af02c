import PackChoice.Json.Reader
import PackChoice.NameMap

/-!
What is known of a document that was read from a text. Its numbers are values of texts, and no
object repeats a name (`Json.written_of_read?`). A text has a natural number as its value exactly if
it is made of digits alone and the number fits in 64 bits (`NumberText.value?_eq_integer_iff`), so
that `1.0`, `1e3` and `-0` have other values.
-/

namespace PackChoice

/-! ## Plain integers -/

namespace NumberText

variable {t : NumberText} {n : Nat} {ds : List Nat}

/-- Whether a number is written with digits alone and fits in 64 bits. -/
structure IsWord (t : NumberText) : Prop where
  unsigned : t.negative = false
  noFraction : t.fraction = none
  noExponent : t.exponent = none
  fits : Json.ofDigits t.whole < wordLimit

theorem le_foldl_digits (n : Nat) (ds : List Nat) : n ≤ ds.foldl (fun n d => n * 10 + d) n := by
  induction ds generalizing n with
  | nil => exact Nat.le_refl n
  | cons d ds ih =>
    have : n ≤ n * 10 + d := by omega
    exact Nat.le_trans this (ih _)

theorem left_gather_eq_zero_iff (hn : n < wordLimit) :
    (gather n ds).2 = 0 ↔ ds.foldl (fun n d => n * 10 + d) n < wordLimit := by
  induction ds generalizing n with
  | nil => exact iff_of_true rfl hn
  | cons d ds ih =>
    rw [gather, List.foldl_cons]
    split
    · next h => exact ih h
    · next h =>
      refine iff_of_false (Nat.succ_ne_zero _) fun hlt => h ?_
      exact Nat.lt_of_le_of_lt (le_foldl_digits _ ds) hlt

theorem gathered_of_left_eq_zero (h : (gather n ds).2 = 0) :
    (gather n ds).1 = ds.foldl (fun n d => n * 10 + d) n := by
  induction ds generalizing n with
  | nil => rfl
  | cons d ds ih =>
    rw [gather] at h ⊢
    split at h
    · next hlt =>
      rw [if_pos hlt]
      exact ih h
    · cases h

/-- A natural number is the value of a text exactly if the text is that number in digits. -/
theorem value?_eq_integer_iff :
    t.value? = some (.integer n) ↔ t.IsWord ∧ Json.ofDigits t.whole = n := by
  have hleft : (gather 0 t.whole).2 = 0 ↔ Json.ofDigits t.whole < wordLimit :=
    left_gather_eq_zero_iff (by decide)
  have hdigits : (gather 0 t.whole).2 = 0 → (gather 0 t.whole).1 = Json.ofDigits t.whole :=
    gathered_of_left_eq_zero
  have hplain : (t.fraction.isNone && t.exponent.isNone && (gather 0 t.whole).2 == 0) = true ↔
      t.fraction = none ∧ t.exponent = none ∧ (gather 0 t.whole).2 = 0 := by
    simp [and_assoc]
  simp only [value?]
  split
  · next h =>
    obtain ⟨hf, he, h0⟩ := hplain.1 h
    split
    · next hsign =>
      rw [Bool.not_eq_true'] at hsign
      rw [hdigits h0, Option.some.injEq, Number.integer.injEq, Int.natCast_inj]
      exact ⟨fun hn => ⟨⟨hsign, hf, he, hleft.1 h0⟩, hn⟩, fun hn => hn.2⟩
    · next hsign =>
      have hneg : ¬t.IsWord := fun ht => hsign (by rw [ht.unsigned]; rfl)
      refine iff_of_false (fun hn => ?_) fun hn => hneg hn.1
      split at hn
      · next hs =>
        have hs : (gather 0 t.whole).1 ≠ 0 := by simpa using (Bool.and_eq_true_iff.1 hs).1
        have := Number.integer.inj (Option.some.inj hn)
        omega
      · cases hn
  · next h =>
    refine iff_of_false (fun hn => ?_) fun ⟨ht, _⟩ => h (hplain.2 ?_)
    · obtain ⟨x, -, hx⟩ := Option.map_eq_some_iff.1 hn
      cases hx
    · exact ⟨ht.noFraction, ht.noExponent, hleft.2 ht.fits⟩

end NumberText

namespace Json

variable {depth : Nat} {text : String} {v : Json}

/-! ## Values of tokens -/

/-- Whether a list of tokens as a whole has a value. -/
def Denotes (depth : Nat) (ts : List Token) (v : Json) : Prop :=
  ∃ h, readValue depth ts = some (v, ⟨[], h⟩)

theorem read?_eq_some_iff : read? depth text = some v ↔ Denotes depth (tokens text.toList) v := by
  unfold read? Denotes
  constructor
  · intro h
    split at h
    · next hv =>
      cases h
      exact ⟨_, hv⟩
    · cases h
  · rintro ⟨h, hv⟩
    rw [hv]

/-- The token of a string that is written without escapes. -/
def Token.spelled (s : String) : Token := .string (s.toList.map .char)

/-- The values that texts have. -/
inductive Written : Json → Prop where
  | null : Written .null
  | bool (b : Bool) : Written (.bool b)
  | number {t : NumberText} {n : Number} : t.value? = some n → Written (.number n)
  | string (s : String) : Written (.string s)
  | array {items : List Json} : (∀ item ∈ items, Written item) → Written (.array items)
  | object {members : List (String × Json)} :
    Sorted.Increasing Prod.fst members → (∀ m ∈ members, Written m.2) → Written (.object members)

theorem Written.ofMembers {members : List (String × Json)} (h : ∀ m ∈ members, Written m.2) :
    Written (ofMembers members) :=
  .object (Sorted.increasing_ofList members) fun m hm => h m (Sorted.mem_of_mem_ofList hm)

/-- What reading gives from a list of tokens is written. -/
structure ReadsWritten (ts : List Token) : Prop where
  value {depth : Nat} {v : Json} {rest : Rest ts} :
    readValue depth ts = some (v, rest) → Written v
  items {depth : Nat} {items : List Json} {rest : Rest ts} :
    readItems depth ts = some (items, rest) → ∀ item ∈ items, Written item
  members {depth : Nat} {members : List (String × Json)} {rest : Rest ts} :
    readMembers depth ts = some (members, rest) → ∀ m ∈ members, Written m.2

section

variable {ts : List Token} (shorter : ∀ us : List Token, us.length < ts.length → ReadsWritten us)
include shorter

theorem written_of_readValue {rest : Rest ts} (h : readValue depth ts = some (v, rest)) :
    Written v := by
  unfold readValue at h
  cases ts with
  | nil => cases h
  | cons t ts =>
    have inner : ReadsWritten ts := shorter ts (Nat.lt_succ_self _)
    cases t with
    | null =>
      cases h
      exact .null
    | bool b =>
      cases h
      exact .bool b
    | number t =>
      obtain ⟨n, hn, h⟩ := Option.map_eq_some_iff.1 h
      cases h
      exact .number hn
    | string parts =>
      obtain ⟨s, -, h⟩ := Option.map_eq_some_iff.1 h
      cases h
      exact .string s
    | openArray =>
      dsimp only at h
      split at h
      · cases h
      · split at h
        · cases h
          exact .array fun item hi => absurd hi List.not_mem_nil
        · split at h
          · cases h
          · next hr =>
            cases h
            exact .array (inner.items hr)
    | openObject =>
      dsimp only at h
      split at h
      · cases h
      · split at h
        · cases h
          exact .ofMembers fun m hm => absurd hm List.not_mem_nil
        · split at h
          · cases h
          · next hr =>
            cases h
            exact .ofMembers (inner.members hr)
    | closeObject | closeArray | colon | comma | bad => cases h

theorem written_of_readItems {items : List Json} {rest : Rest ts}
    (h : readItems depth ts = some (items, rest)) : ∀ item ∈ items, Written item := by
  unfold readItems at h
  split at h
  · cases h
  · next hlt hv =>
    split at h
    · cases h
    · next hr =>
      cases h
      exact List.forall_mem_cons.2
        ⟨written_of_readValue shorter hv, (shorter _ (lt_of_cons hlt)).items hr⟩
  · next hv =>
    cases h
    exact List.forall_mem_singleton.2 (written_of_readValue shorter hv)
  · cases h

theorem written_of_readMembers {members : List (String × Json)} {rest : Rest ts}
    (h : readMembers depth ts = some (members, rest)) : ∀ m ∈ members, Written m.2 := by
  unfold readMembers at h
  split at h
  · split at h
    · cases h
    · split at h
      · cases h
      · next hlt hv =>
        have value := (shorter _ lt_cons_cons).value hv
        split at h
        · cases h
        · next hr =>
          cases h
          have members := (shorter _ (lt_cons_cons_of_lt (lt_of_cons hlt))).members hr
          exact List.forall_mem_cons.2 ⟨value, members⟩
      · next hv =>
        cases h
        exact List.forall_mem_singleton.2 ((shorter _ lt_cons_cons).value hv)
      · cases h
  · cases h

end

theorem readsWritten (ts : List Token) : ReadsWritten ts := by
  -- What is left to a value, to items or to members is always a shorter list of tokens.
  induction hn : ts.length using Nat.strongRecOn generalizing ts with
  | ind n ih =>
    subst hn
    have shorter : ∀ us : List Token, us.length < ts.length → ReadsWritten us :=
      fun us h => ih us.length h us rfl
    exact ⟨written_of_readValue shorter, written_of_readItems shorter,
      written_of_readMembers shorter⟩

theorem written_of_read? (h : read? depth text = some v) : Written v := by
  obtain ⟨_, hv⟩ := read?_eq_some_iff.1 h
  exact (readsWritten _).value hv

namespace Written

/-- An object of a text has at most one member with a name. -/
theorem member?_eq_some_iff {members : List (String × Json)} {name : String}
    (h : Written (.object members)) :
    (Json.object members).member? name = some v ↔ (name, v) ∈ members := by
  cases h with
  | object hinc _ => exact NameMap.get?_eq_some_iff (m := ⟨members, hinc⟩)

theorem of_member? {name : String} {value : Json} (h : Written v)
    (hm : v.member? name = some value) : Written value := by
  cases h with
  | object hinc hmembers =>
    exact hmembers _ ((member?_eq_some_iff (.object hinc hmembers)).1 hm)
  | null | bool | number | string | array => cases hm

theorem of_mem {items : List Json} {item : Json} (h : Written (.array items))
    (hi : item ∈ items) : Written item := by
  cases h with
  | array hitems => exact hitems item hi

theorem lt_wordLimit {n : Nat} (h : Written (.ofNat n)) : n < NumberText.wordLimit := by
  cases h with
  | number ht =>
    obtain ⟨hword, rfl⟩ := NumberText.value?_eq_integer_iff.1 ht
    exact hword.fits

end Written

end Json

end PackChoice
