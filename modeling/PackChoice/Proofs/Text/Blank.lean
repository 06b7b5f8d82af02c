import Mathlib.Data.List.DropRight
import Mathlib.Data.List.TakeWhile
import PackChoice.Text.Blank

/-!
What trimming leaves. Trimming changes nothing exactly where a text neither starts nor ends with
a blank (`trim_eq_self_iff`), and a trimmed text is of that kind (`trim_trim`).
-/

namespace PackChoice.Text

variable {c : Char} {cs : List Char}

theorem trimEnd_isPrefix (cs : List Char) : trimEnd cs <+: cs := List.rdropWhile_prefix isBlank cs

theorem mem_of_mem_trim (h : c ∈ trim cs) : c ∈ cs :=
  (List.dropWhile_suffix isBlank).mem ((trimEnd_isPrefix _).mem h)

theorem trim_eq_self_iff :
    trim cs = cs ↔ ∀ h : cs ≠ [], isBlank (cs.head h) = false ∧ isBlank (cs.getLast h) = false := by
  have hend : ∀ ds, trimEnd ds = ds ↔ ∀ h : ds ≠ [], ¬isBlank (ds.getLast h) = true :=
    fun ds => List.rdropWhile_eq_self_iff
  constructor
  · intro h hne
    have hlength : cs.length ≤ (cs.dropWhile isBlank).length := by
      rw [← congrArg List.length h]
      exact (trimEnd_isPrefix _).length_le
    have hstart := (List.dropWhile_suffix isBlank).eq_of_length_le hlength
    have hhead := List.dropWhile_eq_self_iff.1 hstart (List.length_pos_of_ne_nil hne)
    rw [← List.head_eq_getElem_zero hne] at hhead
    rw [trim, hstart, hend] at h
    exact ⟨Bool.eq_false_iff.2 hhead, Bool.eq_false_iff.2 (h hne)⟩
  · intro h
    have hstart : cs.dropWhile isBlank = cs := by
      cases cs with
      | nil => rfl
      | cons c cs => exact List.dropWhile_cons_of_neg (by simpa using (h (List.cons_ne_nil c cs)).1)
    rw [trim, hstart, hend]
    exact fun hne => Bool.eq_false_iff.1 (h hne).2

@[simp] theorem trim_trim (cs : List Char) : trim (trim cs) = trim cs := by
  refine trim_eq_self_iff.2 fun hne => ⟨?_, ?_⟩
  · have hstart : trim cs <+: cs.dropWhile isBlank := trimEnd_isPrefix _
    rw [hstart.head hne]
    exact List.head_dropWhile_not isBlank _
  · exact Bool.eq_false_iff.2 (List.rdropWhile_last_not isBlank _ hne)

/-- A character that is not blank may stand in front of a trimmed text. -/
theorem trim_cons (hc : isBlank c = false) (h : trim cs = cs) : trim (c :: cs) = c :: cs := by
  refine trim_eq_self_iff.2 fun _ => ⟨hc, ?_⟩
  cases cs with
  | nil => exact hc
  | cons d ds => exact (trim_eq_self_iff.1 h (List.cons_ne_nil d ds)).2

end PackChoice.Text
