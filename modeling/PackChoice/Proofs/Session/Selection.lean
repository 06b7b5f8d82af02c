import PackChoice.Proofs.Catalog.Dependents
import PackChoice.Proofs.Resolution
import PackChoice.Proofs.Session.Operations

/-!
What a toggle makes of a selection. Taking a pack out takes out nothing else
(`mem_selectionWithout`). Putting a pack in puts in everything that it needs and takes out the
candidates that share an exclude group with one of these packs, and nothing else
(`mem_selectionWith`): the packs that come in are no siblings of each other, so whichever comes in
stays in.
-/

namespace PackChoice.Session

open Relation (ReflTransGen)

variable {s : Session} {selected selected' : NameSet} {p q : Pack} {packs : List Pack}
  {name : String}

theorem candidate_eq_ok (hc : ∀ q ∈ s.candidates, q ∈ s.context.catalog.packs)
    (h : s.candidate name = .ok p) : p ∈ s.candidates ∧ p.name = name := by
  unfold candidate at h
  cases hget : s.context.catalog.get? name with
  | none =>
    rw [hget] at h
    cases h
  | some q =>
    rw [hget] at h
    dsimp only at h
    obtain ⟨hq, rfl⟩ := Catalog.get?_eq_some_iff.1 hget
    by_cases hcand : s.isCandidate q.name = true
    · rw [if_pos hcand] at h
      obtain rfl := Except.ok.inj h
      exact ⟨(Catalog.name_mem_names_iff hc hq).1 (isCandidate_iff.1 hcand), rfl⟩
    · rw [if_neg hcand] at h
      cases h

theorem mem_siblings :
    q ∈ s.siblings p ↔ q ∈ s.candidates ∧ q.name ≠ p.name ∧
      ∃ group, p.excludeGroup = some group ∧ q.excludeGroup = some group := by
  unfold siblings
  cases p.excludeGroup with
  | none => simp
  | some group => simp

theorem name_mem_siblings_iff (hc : ∀ q ∈ s.candidates, q ∈ s.context.catalog.packs)
    (hq : q ∈ s.context.catalog.packs) :
    q.name ∈ Pack.names (s.siblings p) ↔ q ∈ s.siblings p :=
  Catalog.name_mem_names_iff (fun r hr => hc r (mem_siblings.1 hr).1) hq

theorem not_mem_siblings_of_exclusive (hex : Exclusive (· ∈ packs)) (hp : p ∈ packs)
    (hq : q ∈ packs) : p ∉ s.siblings q := by
  intro hm
  obtain ⟨-, hne, group, hqg, hpg⟩ := mem_siblings.1 hm
  exact hne (congrArg Pack.name (hex p q group hp hq hpg hqg))

theorem names_not_mem_siblings (hc : ∀ q ∈ s.candidates, q ∈ s.context.catalog.packs)
    (hpacks : ∀ q ∈ packs, q ∈ s.context.catalog.packs) (hex : Exclusive (· ∈ packs)) :
    ∀ p ∈ packs, ∀ q ∈ packs, p.name ∉ Pack.names (s.siblings q) := fun p hp _ hq hm =>
  not_mem_siblings_of_exclusive hex hp hq ((name_mem_siblings_iff hc (hpacks p hp)).1 hm)

/-! ## Taking packs out -/

theorem selectedDependents_ok (selected : NameSet) (hp : p ∈ s.context.catalog.packs) :
    ∃ names, s.selectedDependents selected p.name = .ok names ∧ ∀ name, name ∈ names ↔
      name ∈ selected ∧ ∃ q, q ≠ p ∧ s.context.catalog.Needs q p ∧ q.name = name := by
  obtain ⟨dependents, hd, hmem⟩ := Catalog.dependents_ok hp
  refine ⟨_, bind_eq_ok_iff.2 ⟨dependents, hd, rfl⟩, fun name => ?_⟩
  rw [List.mem_filter, NameSet.contains_eq_true, Pack.mem_names, and_comm]
  simp only [hmem, and_assoc]

theorem eq_of_selectedDependents_eq_nil (hp : p ∈ s.context.catalog.packs)
    (h : s.selectedDependents selected p.name = .ok []) :
    ∀ q, s.context.catalog.DependsOn q p → q.name ∈ selected → q = p := by
  intro q hq hsel
  by_contra hne
  have hfound := (of_exists_ok (s.selectedDependents_ok selected hp) h q.name).2
    ⟨hsel, q, hne, ReflTransGen.single hq, rfl⟩
  exact List.not_mem_nil hfound

theorem displace_eq_ok (h : s.displace selected p = .ok selected') :
    p.name ∉ selected ∧ selected' = selected ∨
      p.required ≠ true ∧ s.selectedDependents (selected.erase p.name) p.name = .ok [] ∧
        selected' = selected.erase p.name := by
  unfold displace at h
  by_cases hin : selected.contains p.name = true
  · rw [if_pos hin] at h
    by_cases hreq : p.required = true
    · rw [if_pos hreq] at h
      cases h
    · rw [if_neg hreq] at h
      obtain ⟨dependents, hd, h⟩ := bind_eq_ok_iff.1 h
      cases dependents with
      | cons name names => cases h
      | nil => exact .inr ⟨hreq, hd, (pure_eq_ok_iff.1 h).symm⟩
  · rw [if_neg hin] at h
    exact .inl ⟨fun hm => hin (NameSet.contains_eq_true.2 hm), (Except.ok.inj h).symm⟩

/-- What is taken out is needed by no pack that stays. -/
theorem displace_cases (hp : p ∈ s.context.catalog.packs)
    (h : s.displace selected p = .ok selected') :
    selected' = selected ∨ p.required ≠ true ∧
      (∀ q, s.context.catalog.DependsOn q p → q.name ∈ selected → q = p) ∧
        selected' = selected.erase p.name := by
  rcases displace_eq_ok h with ⟨-, rfl⟩ | ⟨hreq, hd, rfl⟩
  · exact .inl rfl
  · refine .inr ⟨hreq, fun q hq hsel => ?_, rfl⟩
    by_contra hne
    have hname : q.name ≠ p.name := fun he => hne (Catalog.name_inj hq.1 hp he)
    have hrest : q.name ∈ selected.erase p.name := NameSet.mem_erase.2 ⟨hsel, hname⟩
    exact hne (eq_of_selectedDependents_eq_nil hp hd q hq hrest)

theorem mem_displace (h : s.displace selected p = .ok selected') :
    name ∈ selected' ↔ name ∈ selected ∧ name ≠ p.name := by
  rcases displace_eq_ok h with ⟨hnot, rfl⟩ | ⟨-, -, rfl⟩
  · exact ⟨fun hm => ⟨hm, fun he => hnot (he ▸ hm)⟩, And.left⟩
  · exact NameSet.mem_erase

theorem mem_displaceAll (h : packs.foldlM s.displace selected = .ok selected') :
    name ∈ selected' ↔ name ∈ selected ∧ name ∉ Pack.names packs := by
  induction packs generalizing selected with
  | nil =>
    obtain rfl := pure_eq_ok_iff.1 h
    exact ⟨fun hm => ⟨hm, List.not_mem_nil⟩, And.left⟩
  | cons p packs ih =>
    rw [List.foldlM_cons, bind_eq_ok_iff] at h
    obtain ⟨rest, hrest, h⟩ := h
    have hcons : name ∉ Pack.names (p :: packs) ↔ name ≠ p.name ∧ name ∉ Pack.names packs := by
      rw [Pack.names, List.map_cons, List.mem_cons, not_or, Pack.names]
    rw [ih h, mem_displace hrest, hcons, and_assoc]

theorem selectionWithout_eq_ok (h : s.selectionWithout p = .ok selected') :
    p.required ≠ true ∧ s.selectedDependents s.selected p.name = .ok [] ∧
      selected' = s.selected.erase p.name := by
  unfold selectionWithout at h
  by_cases hreq : p.required = true
  · rw [if_pos hreq] at h
    cases h
  · rw [if_neg hreq] at h
    obtain ⟨dependents, hd, h⟩ := bind_eq_ok_iff.1 h
    cases dependents with
    | cons name names => cases h
    | nil => exact ⟨hreq, hd, (pure_eq_ok_iff.1 h).symm⟩

theorem mem_selectionWithout (h : s.selectionWithout p = .ok selected') :
    name ∈ selected' ↔ name ∈ s.selected ∧ name ≠ p.name := by
  obtain ⟨-, -, rfl⟩ := selectionWithout_eq_ok h
  exact NameSet.mem_erase

/-! ## Putting packs in -/

theorem withPack_eq_ok (h : s.withPack selected p = .ok selected') :
    ∃ rest, (s.siblings p).foldlM s.displace selected = .ok rest ∧
      selected' = rest.insert p.name := by
  obtain ⟨rest, hrest, h⟩ := bind_eq_ok_iff.1 h
  exact ⟨rest, hrest, (pure_eq_ok_iff.1 h).symm⟩

theorem mem_withPack (h : s.withPack selected p = .ok selected') :
    name ∈ selected' ↔ name = p.name ∨ name ∈ selected ∧ name ∉ Pack.names (s.siblings p) := by
  obtain ⟨rest, hrest, rfl⟩ := withPack_eq_ok h
  rw [NameSet.mem_insert, mem_displaceAll hrest]

/-- Each pack stays in when the packs behind it come in, as none of them is its sibling. -/
theorem mem_withPacks (hs : ∀ p ∈ packs, ∀ q ∈ packs, p.name ∉ Pack.names (s.siblings q))
    (h : packs.foldlM s.withPack selected = .ok selected') :
    name ∈ selected' ↔ name ∈ Pack.names packs ∨
      name ∈ selected ∧ ∀ q ∈ packs, name ∉ Pack.names (s.siblings q) := by
  induction packs generalizing selected with
  | nil =>
    obtain rfl := pure_eq_ok_iff.1 h
    simp [Pack.names]
  | cons p packs ih =>
    rw [List.foldlM_cons, bind_eq_ok_iff] at h
    obtain ⟨next, hnext, h⟩ := h
    have hstay : ∀ q ∈ packs, p.name ∉ Pack.names (s.siblings q) :=
      fun q hq => hs p List.mem_cons_self q (List.mem_cons_of_mem _ hq)
    have hcons : name ∈ Pack.names (p :: packs) ↔ name = p.name ∨ name ∈ Pack.names packs := by
      rw [Pack.names, List.map_cons, List.mem_cons, Pack.names]
    rw [ih (fun a ha b hb => hs a (List.mem_cons_of_mem _ ha) b (List.mem_cons_of_mem _ hb)) h,
      mem_withPack hnext, hcons, List.forall_mem_cons]
    constructor
    · rintro (hm | ⟨rfl | ⟨hm, hp⟩, hall⟩)
      · exact .inl (.inr hm)
      · exact .inl (.inl rfl)
      · exact .inr ⟨hm, hp, hall⟩
    · rintro ((rfl | hm) | ⟨hm, hp, hall⟩)
      · exact .inr ⟨.inl rfl, hstay⟩
      · exact .inl hm
      · exact .inr ⟨.inr ⟨hm, hp⟩, hall⟩

/-- What each pack that comes in keeps is kept in the end. Packs come in behind their dependencies,
so these are in by then, and they are no siblings that it would push out again. -/
theorem withPacks_keeps {P : NameSet → Prop}
    (hc : ∀ q ∈ s.candidates, q ∈ s.context.catalog.packs)
    (hpacks : ∀ q ∈ packs, q ∈ s.context.catalog.packs) (hex : Exclusive (· ∈ packs))
    (hd : ∀ before p after, packs = before ++ p :: after →
      ∀ name ∈ p.dependencies, name ∈ Pack.names before)
    (step : ∀ p ∈ packs, ∀ a a', (∀ q, s.context.catalog.DependsOn p q →
      q.name ∈ a ∧ q ∉ s.siblings p) → P a → s.withPack a p = .ok a' → P a')
    (hP : P selected) (h : packs.foldlM s.withPack selected = .ok selected') : P selected' := by
  -- The packs in `before` have come in already and stay.
  suffices hrest : ∀ after before a, packs = before ++ after → (∀ q ∈ before, q.name ∈ a) → P a →
      after.foldlM s.withPack a = .ok selected' → P selected' from
    hrest packs [] selected rfl (fun q hq => absurd hq List.not_mem_nil) hP h
  intro after
  induction after with
  | nil =>
    intro before a _ _ ha hok
    obtain rfl := pure_eq_ok_iff.1 hok
    exact ha
  | cons p after ih =>
    intro before a hsplit hin ha hok
    rw [List.foldlM_cons, bind_eq_ok_iff] at hok
    obtain ⟨next, hnext, hok⟩ := hok
    have hp : p ∈ packs := hsplit ▸ List.mem_append_right _ List.mem_cons_self
    have hbefore : ∀ q ∈ before, q ∈ packs := fun q hq => hsplit ▸ List.mem_append_left _ hq
    have hdeps : ∀ q, s.context.catalog.DependsOn p q → q.name ∈ a ∧ q ∉ s.siblings p := by
      intro q hq
      have hname := hd before p after hsplit q.name hq.2.2
      have hqb := (Catalog.name_mem_names_iff (fun r hr => hpacks r (hbefore r hr)) hq.2.1).1 hname
      exact ⟨hin q hqb, not_mem_siblings_of_exclusive hex (hbefore q hqb) hp⟩
    refine ih (before ++ [p]) next (by simp [hsplit]) (fun q hq => (mem_withPack hnext).2 ?_)
      (step p hp a next hdeps ha hnext) hok
    rcases List.mem_append.1 hq with hq | hq
    · exact .inr ⟨hin q hq, names_not_mem_siblings hc hpacks hex q (hbefore q hq) p hp⟩
    · exact .inl (congrArg Pack.name (List.mem_singleton.1 hq))

theorem installOrder_of_closure {c : Catalog} {order : List Nat} (hp : p ∈ c.packs)
    (ho : c.closure (c.indexesOf [p.name]) = .ok order) :
    c.InstallOrder [p] (c.packsAt order) ∧ c.CircleFree p := by
  have hknown : ∀ r ∈ [p], r ∈ c.packs := fun r hr => List.mem_singleton.1 hr ▸ hp
  have hseeds : ∀ q, q ∈ c.packsAt (c.indexesOf [p.name]) ↔ q ∈ [p] :=
    fun q => Catalog.mem_packsAt_indexesOf_names hknown
  exact ⟨(Catalog.closure_eq_ok Catalog.lt_of_mem_indexesOf ho).congr hseeds,
    (Catalog.closure_ok_iff Catalog.lt_of_mem_indexesOf).1 ⟨order, ho⟩ p
      ((hseeds p).2 (List.mem_singleton_self p))⟩

theorem selectionWith_eq_ok (hp : p ∈ s.context.catalog.packs)
    (h : s.selectionWith p = .ok selected') :
    ∃ closed, s.context.catalog.InstallOrder [p] closed ∧ s.context.catalog.CircleFree p ∧
      Exclusive (· ∈ closed) ∧ closed.foldlM s.withPack s.selected = .ok selected' := by
  obtain ⟨order, ho, h⟩ := bind_eq_ok_iff.1 h
  obtain ⟨⟨⟩, hex, h⟩ := bind_eq_ok_iff.1 h
  obtain ⟨hio, hfree⟩ := installOrder_of_closure hp ho
  exact ⟨_, hio, hfree, (checkExclusions_ok_iff hio.nodup).1 hex, h⟩

theorem mem_selectionWith (hc : ∀ q ∈ s.candidates, q ∈ s.context.catalog.packs)
    (hp : p ∈ s.context.catalog.packs) (h : s.selectionWith p = .ok selected') :
    name ∈ selected' ↔ (∃ q, s.context.catalog.Needs p q ∧ q.name = name) ∨
      name ∈ s.selected ∧ ∀ q, s.context.catalog.Needs p q → name ∉ Pack.names (s.siblings q) := by
  obtain ⟨closed, hio, -, hex, hok⟩ := selectionWith_eq_ok hp h
  have hneeds : ∀ q, q ∈ closed ↔ s.context.catalog.Needs p q := fun q => hio.mem_iff_needs
  have hfar := names_not_mem_siblings hc (fun q hq => ((hneeds q).1 hq).mem hp) hex
  rw [mem_withPacks hfar hok, Pack.mem_names]
  simp only [hneeds]

end PackChoice.Session
