import PackChoice.Proofs.Catalog.Traversal

/-!
The dependents of a pack are exactly the other packs that need it (`dependents_ok`). They are
found by spreading over positions against the direction of the dependencies, where the pack itself
is left out. That loses nothing, because a way that comes back to its start can be shortened
(`spreads_of_needs`). So they are the other side of the closure: a pack is a dependent of another
one exactly when its closure, where it has one, holds that one (`dependents_exact`).
-/

namespace PackChoice.Catalog

open Relation (ReflTransGen TransGen)

variable {c : Catalog} {p q : Pack} {i j : Nat}

/-- The positions other than one. -/
def others (c : Catalog) (i : Nat) : List Nat := (List.range c.packs.length).filter (· ≠ i)

theorem mem_others : j ∈ c.others i ↔ j < c.packs.length ∧ j ≠ i := by
  unfold others
  rw [List.mem_filter, List.mem_range, decide_eq_true_eq]

theorem mem_directDependents (hq : c.packs[i]? = some q) :
    j ∈ c.directDependents i ↔ ∃ p, c.packs[j]? = some p ∧ c.DependsOn p q := by
  unfold directDependents
  rw [List.mem_filter, List.mem_range, decide_eq_true_eq]
  constructor
  · rintro ⟨hj, hi⟩
    have hp := List.getElem?_eq_getElem hj
    rw [dependenciesOf_of_getElem? hp] at hi
    obtain ⟨r, hr, hname⟩ := mem_indexesOf.1 hi
    rw [hq] at hr
    obtain rfl := Option.some.inj hr
    exact ⟨_, hp, List.mem_of_getElem? hp, List.mem_of_getElem? hq, hname⟩
  · rintro ⟨p, hp, -, -, hname⟩
    rw [dependenciesOf_of_getElem? hp]
    exact ⟨lt_of_getElem? hp, mem_indexesOf.2 ⟨q, hq, hname⟩⟩

theorem needs_of_spreads (hq : c.packs[i]? = some q)
    (h : TransGen (Spreads (c.others i) c.directDependents) i j) :
    ∃ p, c.packs[j]? = some p ∧ p ≠ q ∧ c.Needs p q := by
  have hne : ∀ {k p}, k ∈ c.others i → c.packs[k]? = some p → p ≠ q := by
    intro k p hk hp he
    exact (mem_others.1 hk).2 (position_inj hp hq (congrArg Pack.name he))
  induction h with
  | single hij =>
    obtain ⟨p, hp, hpq⟩ := (mem_directDependents hq).1 hij.2
    exact ⟨p, hp, hne hij.1 hp, ReflTransGen.single hpq⟩
  | tail _ hjk ih =>
    obtain ⟨r, hr, -, hrq⟩ := ih
    obtain ⟨p, hp, hpr⟩ := (mem_directDependents hr).1 hjk.2
    exact ⟨p, hp, hne hjk.1 hp, ReflTransGen.head hpr hrq⟩

theorem spreads_of_needs (hq : c.packs[i]? = some q) (h : c.Needs p q) :
    ∀ {j}, c.packs[j]? = some p → p ≠ q →
      TransGen (Spreads (c.others i) c.directDependents) i j := by
  induction h using ReflTransGen.head_induction_on with
  | refl => exact fun _ hne => absurd rfl hne
  | @head p r hpr _ ih =>
    intro j hp hne
    have hj : j ∈ c.others i := by
      refine mem_others.2 ⟨lt_of_getElem? hp, fun he => hne ?_⟩
      rw [he, hq] at hp
      exact (Option.some.inj hp).symm
    obtain ⟨k, hk⟩ := List.mem_iff_getElem?.1 hpr.2.1
    have hstep : j ∈ c.directDependents k := (mem_directDependents hk).2 ⟨p, hp, hpr⟩
    by_cases hr : r = q
    · have hki : k = i := position_inj hk hq (congrArg Pack.name hr)
      rw [hki] at hstep
      exact TransGen.single ⟨hj, hstep⟩
    · exact (ih hk hr).tail ⟨hj, hstep⟩

theorem mem_dependentsOf (hq : c.packs[i]? = some q) :
    j ∈ c.dependentsOf i ↔ ∃ p, c.packs[j]? = some p ∧ p ≠ q ∧ c.Needs p q := by
  have hspread : j ∈ c.dependentsOf i ↔
      j ∈ c.others i ∧ j ∈ spread (c.others i) c.directDependents [] [i] := by
    unfold dependentsOf
    rw [List.mem_filter, decide_eq_true_eq]
    rfl
  rw [hspread, mem_spread_iff]
  constructor
  · rintro ⟨-, h⟩
    exact needs_of_spreads hq h
  · rintro ⟨p, hp, hne, hpq⟩
    have h := spreads_of_needs hq hpq hp hne
    obtain ⟨k, -, hkj⟩ := TransGen.tail'_iff.1 h
    exact ⟨hkj.1, h⟩

theorem dependents_ok (hq : q ∈ c.packs) :
    ∃ packs, c.dependents q.name = .ok packs ∧ ∀ p, p ∈ packs ↔ p ≠ q ∧ c.Needs p q := by
  obtain ⟨i, hi⟩ := List.mem_iff_getElem?.1 hq
  have hindex : c.indexOf? q.name = some i := indexOf?_eq_some_iff.2 ⟨q, hi, rfl⟩
  refine ⟨c.packsAt (c.dependentsOf i), ?_, fun p => ?_⟩
  · unfold dependents
    rw [hindex]
  · rw [mem_packsAt]
    constructor
    · rintro ⟨j, hj, hp⟩
      obtain ⟨r, hr, hne, hrq⟩ := (mem_dependentsOf hi).1 hj
      rw [hp] at hr
      rw [Option.some.inj hr]
      exact ⟨hne, hrq⟩
    · rintro ⟨hne, hpq⟩
      obtain ⟨j, hj⟩ := List.mem_iff_getElem?.1 (hpq.mem_of_ne hne)
      exact ⟨j, (mem_dependentsOf hi).2 ⟨p, hj, hne, hpq⟩, hj⟩

theorem sublist_of_dependents {name : String} {packs : List Pack}
    (h : c.dependents name = .ok packs) : packs.Sublist c.packs := by
  unfold dependents at h
  split at h
  · cases h
  · rw [← Except.ok.inj h]
    exact packsAt_sublist (List.filter_sublist.trans List.filter_sublist)

/-- The dependents of a pack are the other packs that need it, in the order of the catalog and each
once. So a pack whose closure can be told is one of them just when its closure holds that pack. -/
theorem dependents_exact (hq : q ∈ c.packs) :
    ∃ packs, c.dependents q.name = .ok packs ∧ packs.Sublist c.packs ∧ packs.Nodup ∧
      (∀ p, p ∈ packs ↔ p ≠ q ∧ c.Needs p q) ∧
      ∀ p i order, c.packs[i]? = some p → c.closure [i] = .ok order →
        (p ∈ packs ↔ p ≠ q ∧ q ∈ c.packsAt order) := by
  obtain ⟨packs, hok, hmem⟩ := dependents_ok hq
  have hsub := sublist_of_dependents hok
  refine ⟨packs, hok, hsub, hsub.nodup c.packs_nodup, hmem, fun p i order hp ho => ?_⟩
  have hseeds : ∀ r, r ∈ c.packsAt [i] ↔ r ∈ [p] := by
    intro r
    rw [mem_packsAt]
    simp [hp, eq_comm]
  have hlt : ∀ j ∈ [i], j < c.packs.length :=
    fun j hj => List.mem_singleton.1 hj ▸ lt_of_getElem? hp
  rw [hmem, ((closure_eq_ok hlt ho).congr hseeds).mem_iff_needs]

/-- `yin` needs `yang` and is needed by it, and `tool` needs both. -/
theorem knot_dependents_exact : ∃ yang ∈ knot.packs, ∃ packs, yang.name = "yang" ∧
    knot.dependents "yang" = .ok packs ∧ Pack.names packs = ["yin", "tool"] ∧
    ∀ p, p ∈ packs ↔ p ≠ yang ∧ knot.Needs p yang := by
  have hok : (knot.dependents "yang").toOption.map Pack.names = some ["yin", "tool"] := by cbv
  have hyang : "yang" ∈ Pack.names knot.packs := by decide
  obtain ⟨yang, hq, hname⟩ := Pack.mem_names.1 hyang
  obtain ⟨packs, hd, -, -, hmem, -⟩ := dependents_exact hq
  rw [hname] at hd
  rw [hd] at hok
  exact ⟨yang, hq, packs, hname, hd, Option.some.inj hok, hmem⟩

end PackChoice.Catalog
