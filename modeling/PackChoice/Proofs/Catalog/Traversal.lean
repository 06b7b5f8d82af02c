import PackChoice.Proofs.Catalog.Closure
import PackChoice.Proofs.Sequencing
import PackChoice.Proofs.Walk.Coloured

/-!
Working out a closure. From packs of the catalog this always comes to an end, even where packs depend
on each other in a circle, and it gives an install order exactly when no circle is needed; the
closure of the first packs alone stands in front (`closure_exact`). Where it fails it reports a
circle as it stands in the catalog (`closure_reports_circle`). This holds of all positions, also of
those behind the end, since no pack depends on such a position.
-/

namespace PackChoice.Catalog

open Relation (ReflTransGen)

variable {c : Catalog} {p q : Pack} {i j : Nat} {seeds order : List Nat}

/-! ## Orders -/

theorem lt_of_mem_closure (hs : ∀ i ∈ seeds, i < c.packs.length) (h : c.closure seeds = .ok order) :
    ∀ i ∈ order, i < c.packs.length := by
  intro j hj
  obtain ⟨-, hmem⟩ := Graph.finishOrder_eq_ok (fun i hi => covers_of_lt (hs i hi)) h
  obtain ⟨i, hi, hij⟩ := (hmem j).1 hj
  obtain ⟨q, hq, -⟩ := (reaches_iff (List.getElem?_eq_getElem (hs i hi))).1 hij
  exact lt_of_getElem? hq

/-- A tour of the dependencies from some packs ends, in one way, and the closure tells how. It
succeeds exactly when none of the packs needs a circle. Then it lists positions of the catalog, each
once; the packs there are those that are needed, each behind its dependencies, and the closure of
any first packs stands in front. -/
theorem closure_exact (hs : ∀ i ∈ seeds, i < c.packs.length) :
    (∃ r, (c.dependencyGraph seeds).Tours .start seeds r) ∧
    (∀ r, (c.dependencyGraph seeds).Tours .start seeds r →
      r.map Graph.Tour.order = c.closure seeds) ∧
    ((∃ order, c.closure seeds = .ok order) ↔ ∀ p ∈ c.packsAt seeds, c.CircleFree p) ∧
    ∀ order, c.closure seeds = .ok order →
      order.Nodup ∧ (∀ i ∈ order, i < c.packs.length) ∧
        c.InstallOrder (c.packsAt seeds) (c.packsAt order) ∧
        ∀ front rest, seeds = front ++ rest →
          ∃ first, c.closure front = .ok first ∧ first <+: order := by
  have hc : ∀ i ∈ seeds, (c.dependencyGraph seeds).Covers i := fun i hi => covers_of_lt (hs i hi)
  obtain ⟨hends, htour⟩ := Graph.finishOrder_eq_tour hc
  refine ⟨hends, htour, closure_ok_iff hs, fun order h => ?_⟩
  have hnodup := (Graph.finishOrder_eq_ok hc h).1.nodup
  refine ⟨hnodup, lt_of_mem_closure hs h, closure_eq_ok hs h, ?_⟩
  rintro front rest rfl
  exact closure_append_eq_ok hs h

/-! ## Circles -/

/-- A circle of dependencies as it is reported: the names of its packs from one of them, which a pack
of `seeds` needs, around to the same one again. -/
structure CircleReport (c : Catalog) (seeds : List Nat) (names : List String) : Prop where
  two_le_length : 2 ≤ names.length
  comes_back : names.head? = names.getLast?
  nodup : names.dropLast.Nodup
  dependencies : names.IsChain fun a b => ∃ p ∈ c.packs, p.name = a ∧ b ∈ p.dependencies
  needed : ∃ i ∈ seeds, ∃ p q, c.packAt? i = some p ∧ c.Needs p q ∧ names.head? = some q.name

theorem nameAt_of_getElem? (h : c.packs[i]? = some p) : c.nameAt i = p.name := by
  rw [nameAt, h]
  rfl

theorem needs_of_reaches (h : (c.dependencyGraph seeds).Reaches i j) (hq : c.packs[j]? = some q) :
    ∃ p, c.packAt? i = some p ∧ c.Needs p q := by
  rcases ReflTransGen.cases_head h with rfl | ⟨k, hik, hkj⟩
  · exact ⟨q, packAt?_of_getElem? hq, ReflTransGen.refl⟩
  · obtain ⟨p, r, hp, hr, hpr⟩ := dependsOn_of_leads hik
    obtain ⟨q', hq', hrq⟩ := (reaches_iff hr).1 hkj
    rw [hq] at hq'
    obtain rfl := Option.some.inj hq'
    exact ⟨p, hp, ReflTransGen.head hpr hrq⟩

theorem getElem?_of_mem_chain {is : List Nat}
    (h : List.IsChain (c.dependencyGraph seeds).Leads (i :: is)) :
    ∀ j ∈ is, ∃ p, c.packs[j]? = some p := by
  induction is generalizing i with
  | nil => exact fun j hj => absurd hj List.not_mem_nil
  | cons k is ih =>
    obtain ⟨hik, hrest⟩ := List.isChain_cons_cons.1 h
    intro j hj
    rcases List.mem_cons.1 hj with rfl | hj
    · obtain ⟨-, p, -, hp, -⟩ := dependsOn_of_leads hik
      exact ⟨p, hp⟩
    · exact ih hrest j hj

/-- The first position of a circle comes again at its end, so all its positions are those of packs. -/
theorem circleReport_of_isChain {between : List Nat} (hi : i ∈ seeds)
    (hij : (c.dependencyGraph seeds).Reaches i j) (hnodup : (j :: between).Nodup)
    (h : List.IsChain (c.dependencyGraph seeds).Leads (j :: between ++ [j])) :
    c.CircleReport seeds ((j :: between ++ [j]).map c.nameAt) := by
  have htail : ∀ k ∈ between ++ [j], ∃ p, c.packs[k]? = some p := getElem?_of_mem_chain h
  obtain ⟨q, hq⟩ := htail j (by simp)
  have hpack : ∀ k ∈ j :: between ++ [j], ∃ p, c.packs[k]? = some p := by
    intro k hk
    rcases List.mem_cons.1 hk with rfl | hk
    · exact ⟨q, hq⟩
    · exact htail k hk
  constructor
  case two_le_length => simp
  case comes_back =>
    rw [List.map_append, List.map_singleton, List.getLast?_concat]
    rfl
  case nodup =>
    have hdrop : ((j :: between ++ [j]).map c.nameAt).dropLast = (j :: between).map c.nameAt := by
      rw [List.map_append, List.map_singleton, List.dropLast_concat]
    rw [hdrop]
    refine hnodup.map_on fun k hk l hl hkl => ?_
    obtain ⟨p, hp⟩ := hpack k (List.mem_append_left _ hk)
    obtain ⟨r, hr⟩ := hpack l (List.mem_append_left _ hl)
    rw [nameAt_of_getElem? hp, nameAt_of_getElem? hr] at hkl
    exact position_inj hp hr hkl
  case dependencies =>
    refine (List.isChain_map c.nameAt).2 (h.imp_of_mem_imp fun k l hk _ hkl => ?_)
    obtain ⟨p, hp⟩ := hpack k hk
    obtain ⟨r, hr, hpr⟩ := (leads_iff hp).1 hkl
    rw [nameAt_of_getElem? hp, nameAt_of_getElem? hr]
    exact ⟨p, hpr.1, rfl, hpr.2.2⟩
  case needed =>
    obtain ⟨p, hp, hpq⟩ := needs_of_reaches hij hq
    refine ⟨i, hi, p, q, hp, hpq, ?_⟩
    rw [List.cons_append, List.map_cons, List.head?_cons, nameAt_of_getElem? hq]

/-- A closure fails for no other reason than a circle, and it reports one that is there. -/
theorem closure_reports_circle {e : Error} (h : c.closure seeds = .error e) :
    ∃ names, e = .cyclicDependency names ∧ c.CircleReport seeds names := by
  obtain ⟨i, hi, hf⟩ := Graph.finishOrder_eq_error h
  cases hf with
  | stuck _ hn => cases hn
  | circle hij hnodup hchain => exact ⟨_, rfl, circleReport_of_isChain hi hij hnodup hchain⟩

/-! ## A catalog with a circle -/

/-- Six packs: `app` needs `lib` and `core`, and `tool` needs two packs that need each other. -/
def knot : Catalog where
  packs := [
    { name := "app", dependencies := ["lib", "core"] },
    { name := "lib", dependencies := ["core"] },
    { name := "core" },
    { name := "yin", dependencies := ["lib", "yang"] },
    { name := "yang", dependencies := ["yin"] },
    { name := "tool", dependencies := ["yang"] }]
  names_nodup := by decide
  ids_nodup := by decide
  id_not_name := by decide
  references_known := by decide

/-- `lib` and then `app` can be installed behind `core`; `tool` needs a circle. -/
theorem knot_closure_exact : (∀ i ∈ [1, 0], i < knot.packs.length) ∧
    (∀ i ∈ [5], i < knot.packs.length) ∧ knot.closure [1, 0] = .ok [2, 1, 0] ∧
    knot.InstallOrder (knot.packsAt [1, 0]) (knot.packsAt [2, 1, 0]) ∧
    (∃ first, knot.closure [1] = .ok first ∧ first <+: [2, 1, 0]) ∧
    (∃ r, (knot.dependencyGraph [5]).Tours .start [5] r ∧
      r.map Graph.Tour.order = .error (.cyclicDependency ["yang", "yin", "yang"])) ∧
    ¬ ∀ p ∈ knot.packsAt [5], knot.CircleFree p := by
  have happ : ∀ i ∈ [1, 0], i < knot.packs.length := by decide
  have htool : ∀ i ∈ [5], i < knot.packs.length := by decide
  have hok : knot.closure [1, 0] = .ok [2, 1, 0] := by cbv
  have hfail : knot.closure [5] = .error (.cyclicDependency ["yang", "yin", "yang"]) := by cbv
  obtain ⟨-, -, -, horder⟩ := closure_exact happ
  obtain ⟨-, -, hio, hfront⟩ := horder _ hok
  obtain ⟨⟨r, hr⟩, htour, hiff, -⟩ := closure_exact htool
  refine ⟨happ, htool, hok, hio, hfront [1] [0] rfl, ⟨r, hr, (htour r hr).trans hfail⟩, fun h => ?_⟩
  obtain ⟨order, ho⟩ := hiff.2 h
  rw [hfail] at ho
  cases ho

/-- The circle is entered from `tool`, which is not on it. -/
theorem knot_reports_circle :
    knot.closure [2, 5] = .error (.cyclicDependency ["yang", "yin", "yang"]) ∧
      knot.CircleReport [2, 5] ["yang", "yin", "yang"] := by
  have hfail : knot.closure [2, 5] = .error (.cyclicDependency ["yang", "yin", "yang"]) := by cbv
  obtain ⟨names, he, hreport⟩ := closure_reports_circle hfail
  obtain rfl := Error.cyclicDependency.inj he
  exact ⟨hfail, hreport⟩

end PackChoice.Catalog
