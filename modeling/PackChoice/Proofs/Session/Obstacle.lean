import PackChoice.Proofs.Resolution.Refusals
import PackChoice.Proofs.Session.SelfContained

/-!
What keeps a pack from being put in because others are needed. The packs that come in do so one
after another, and before one enters the candidates of its exclude group leave one after another. A
toggle is refused at the first that is needed by a pack still selected (`Stage`). Packs that have
left by then do not count (`Stage.HasLeft`), but packs that would have left later do
(`Stage.Due`): of the packs that a refusal names exactly those make way themselves
(`toggle_needed`). So whether a toggle is refused can depend on the order in which a pack lists its
dependencies (`bench_toggle_needed`). Where no selected pack that makes way needs another one, a
refusal names a pack that would have stayed.
-/

namespace PackChoice

open Relation (ReflTransGen)

namespace Session

variable {s : Session} {p q d : Pack} {selected : NameSet} {dependents : List String}
  {name pack : String}

/-! ## Where a toggle is refused -/

/-- A stage of putting a pack in. Of the packs that come in some have entered and one is entering;
of the candidates that share its exclude group some are gone and one is leaving. -/
structure Stage (s : Session) (p : Pack) where
  entered : List Pack
  entering : Pack
  waiting : List Pack
  gone : List Pack
  leaving : Pack
  remaining : List Pack
  order : s.context.catalog.InstallOrder [p] (entered ++ entering :: waiting)
  exclusive : Exclusive (· ∈ entered ++ entering :: waiting)
  siblings_eq : s.siblings entering = gone ++ leaving :: remaining

/-- What is selected at a stage. -/
def Stage.reached (g : s.Stage p) : Except Error NameSet := do
  let selected ← g.entered.foldlM s.withPack s.selected
  g.gone.foldlM s.displace selected

theorem displace_eq_needed (hp : p ∈ s.context.catalog.packs)
    (h : s.displace selected p = .error (.packNeeded pack dependents)) :
    p.name = pack ∧ p.name ∈ selected ∧ p.required ≠ true ∧ dependents ≠ [] ∧
      s.selectedDependents (selected.erase p.name) p.name = .ok dependents := by
  unfold displace at h
  by_cases hin : selected.contains p.name = true
  · rw [if_pos hin] at h
    by_cases hreq : p.required = true
    · rw [if_pos hreq] at h
      cases h
    · rw [if_neg hreq] at h
      obtain ⟨names, hnames, -⟩ := s.selectedDependents_ok (selected.erase p.name) hp
      simp only [hnames, bind, Except.bind] at h
      cases names with
      | nil => cases h
      | cons other names =>
        obtain ⟨rfl, rfl⟩ := Error.packNeeded.inj (Except.error.inj h)
        exact ⟨rfl, NameSet.contains_eq_true.1 hin, hreq, List.cons_ne_nil _ _, hnames⟩
  · rw [if_neg hin] at h
    cases h

theorem candidate_ne_needed : s.candidate name ≠ .error (.packNeeded pack dependents) := by
  unfold candidate
  intro h
  split at h
  · cases h
  · split at h <;> cases h

theorem selectionWith_eq_needed (hp : p ∈ s.context.catalog.packs)
    (h : s.selectionWith p = .error (.packNeeded pack dependents)) :
    ∃ (g : s.Stage p) (selected : NameSet), g.reached = .ok selected ∧
      s.displace selected g.leaving = .error (.packNeeded pack dependents) := by
  rcases bind_eq_error_iff.1 h with h | ⟨order, ho, h⟩
  · obtain ⟨path, he⟩ := Catalog.closure_eq_error h
    cases he
  · obtain ⟨hio, -⟩ := installOrder_of_closure hp ho
    rcases bind_eq_error_iff.1 h with h | ⟨⟨⟩, hex, h⟩
    · obtain ⟨group, he, -⟩ := checkExclusions_eq_error h
      cases he
    · have hex := (checkExclusions_ok_iff hio.nodup).1 hex
      obtain ⟨entered, entering, waiting, a, hsplit, ha, h⟩ := first_of_foldlM_eq_error h
      rcases bind_eq_error_iff.1 h with h | ⟨rest, -, h⟩
      · obtain ⟨gone, leaving, remaining, b, hsib, hb, h⟩ := first_of_foldlM_eq_error h
        rw [hsplit] at hio hex
        exact ⟨⟨entered, entering, waiting, gone, leaving, remaining, hio, hex, hsib⟩, b,
          bind_eq_ok_iff.2 ⟨a, ha, hb⟩, h⟩
      · cases h

theorem toggle_eq_needed (hc : ∀ q ∈ s.candidates, q ∈ s.context.catalog.packs)
    (h : (s.toggle name true).result = .error (.packNeeded pack dependents)) :
    ∃ p ∈ s.candidates, p.name = name ∧
      s.selectionWith p = .error (.packNeeded pack dependents) := by
  rcases s.attempt_cases _ with ⟨e, he, ht⟩ | ⟨u, t, -, ht⟩
  · obtain rfl : e = .packNeeded pack dependents :=
      Except.error.inj ((congrArg Outcome.result ht).symm.trans h)
    rcases bind_eq_error_iff.1 he with he | ⟨p, hp, he⟩
    · exact absurd he candidate_ne_needed
    · obtain ⟨hpc, hname⟩ := candidate_eq_ok hc hp
      rcases bind_eq_error_iff.1 he with he | ⟨selected, -, he⟩
      · exact ⟨p, hpc, hname, he⟩
      · cases he
  · have hok := (congrArg Outcome.result ht).symm.trans h
    cases hok

/-! ## Packs that make way -/

namespace Stage

variable {g : s.Stage p}

/-- A pack has been asked to leave before this stage. -/
def HasLeft (g : s.Stage p) (d : Pack) : Prop :=
  d ∈ g.gone ∨ ∃ r ∈ g.entered, d ∈ s.siblings r

/-- A pack would be asked to leave after this stage. -/
def Due (g : s.Stage p) (d : Pack) : Prop :=
  d ∈ g.remaining ∨ ∃ r ∈ g.waiting, d ∈ s.siblings r

theorem mem_siblings_entering :
    d ∈ s.siblings g.entering ↔ d ∈ g.gone ∨ d = g.leaving ∨ d ∈ g.remaining := by
  rw [g.siblings_eq, List.mem_append, List.mem_cons]

theorem makesWay_iff (hc : ∀ q ∈ s.candidates, q ∈ s.context.catalog.packs) (hp : p ∈ s.candidates)
    (g : s.Stage p) : s.MakesWay p.name d ↔ g.HasLeft d ∨ d = g.leaving ∨ g.Due d := by
  have hbrings : ∀ r, s.Brings p.name r ↔ r ∈ g.entered ∨ r = g.entering ∨ r ∈ g.waiting := by
    intro r
    rw [brings_iff (hc p hp), ← g.order.mem_iff_needs, List.mem_append, List.mem_cons]
  rw [Session.makesWay_iff hc]
  simp only [hbrings, HasLeft, Due, or_and_right, exists_or, exists_eq_left, mem_siblings_entering]
  grind

theorem leaving_mem_siblings (g : s.Stage p) : g.leaving ∈ s.siblings g.entering :=
  mem_siblings_entering.2 (.inr (.inl rfl))

/-- What comes in does not need the pack that is leaving, as no two packs that come in share an
exclude group. -/
theorem not_entered_of_needs (h : s.context.catalog.Needs d g.leaving) : d ∉ g.entered := by
  intro hd
  have hleaving := g.order.mem_of_needs (List.mem_append_left _ hd) h
  have hentering : g.entering ∈ g.entered ++ g.entering :: g.waiting :=
    List.mem_append_right _ List.mem_cons_self
  exact not_mem_siblings_of_exclusive g.exclusive hleaving hentering g.leaving_mem_siblings

theorem mem_reached (hc : ∀ q ∈ s.candidates, q ∈ s.context.catalog.packs) (hp : p ∈ s.candidates)
    (h : g.reached = .ok selected) (hd : d ∈ s.context.catalog.packs) (hnew : d ∉ g.entered) :
    d.name ∈ selected ↔ d.name ∈ s.selected ∧ ¬ g.HasLeft d := by
  obtain ⟨a, ha, hb⟩ := bind_eq_ok_iff.1 h
  have hclosed : ∀ q ∈ g.entered ++ g.entering :: g.waiting, q ∈ s.context.catalog.packs :=
    g.order.known fun q hq => List.mem_singleton.1 hq ▸ hc p hp
  have hentered : ∀ q ∈ g.entered, q ∈ s.context.catalog.packs :=
    fun q hq => hclosed q (List.mem_append_left _ hq)
  have hfar : ∀ q ∈ g.entered, ∀ r ∈ g.entered, q.name ∉ Pack.names (s.siblings r) :=
    names_not_mem_siblings hc hentered
      (g.exclusive.mono fun q hq => List.mem_append_left _ hq)
  have hgone : ∀ q ∈ g.gone, q ∈ s.context.catalog.packs :=
    fun q hq => hc q (mem_siblings.1 (mem_siblings_entering.2 (.inl hq))).1
  rw [mem_displaceAll hb, mem_withPacks hfar ha, Catalog.name_mem_names_iff hentered hd,
    Catalog.name_mem_names_iff hgone hd]
  simp only [name_mem_siblings_iff hc hd, HasLeft]
  grind

/-- The dependents that are found are packs that have not left. -/
theorem mem_dependents (hc : ∀ q ∈ s.candidates, q ∈ s.context.catalog.packs)
    (hp : p ∈ s.candidates) (h : g.reached = .ok selected)
    (hd : s.selectedDependents (selected.erase g.leaving.name) g.leaving.name = .ok dependents)
    (other : String) : other ∈ dependents ↔ other ∈ s.selected ∧ ∃ d, d ≠ g.leaving ∧
      s.context.catalog.Needs d g.leaving ∧ d.name = other ∧ ¬ g.HasLeft d := by
  have hl : g.leaving ∈ s.context.catalog.packs :=
    hc _ (mem_siblings.1 g.leaving_mem_siblings).1
  have hmem : ∀ d, d ≠ g.leaving → s.context.catalog.Needs d g.leaving →
      (d.name ∈ selected.erase g.leaving.name ↔ d.name ∈ s.selected ∧ ¬ g.HasLeft d) := by
    intro d hne hneeds
    have hdc := hneeds.mem_of_ne hne
    have hname : d.name ≠ g.leaving.name := fun he => hne (Catalog.name_inj hdc hl he)
    rw [NameSet.mem_erase, mem_reached hc hp h hdc (not_entered_of_needs hneeds)]
    exact and_iff_left hname
  rw [of_exists_ok (s.selectedDependents_ok _ hl) hd other]
  constructor
  · rintro ⟨hsel, d, hne, hneeds, rfl⟩
    obtain ⟨hsel, hleft⟩ := (hmem d hne hneeds).1 hsel
    exact ⟨hsel, d, hne, hneeds, rfl, hleft⟩
  · rintro ⟨hsel, d, hne, hneeds, rfl, hleft⟩
    exact ⟨(hmem d hne hneeds).2 ⟨hsel, hleft⟩, d, hne, hneeds, rfl⟩

/-- Where no two selected packs share an exclude group, a pack is due to leave only for a pack that
is waiting. -/
theorem waiting_of_due (hc : ∀ q ∈ s.candidates, q ∈ s.context.catalog.packs)
    (hex : Exclusive s.Picked) (hl : s.Picked g.leaving) (hd : d.name ∈ s.selected)
    (hne : d ≠ g.leaving) (h : g.Due d) : ∃ r ∈ g.waiting, d ∈ s.siblings r := by
  refine h.resolve_left fun hrem => hne ?_
  obtain ⟨hdc, -, group, heg, hdg⟩ := mem_siblings.1 (mem_siblings_entering.2 (.inr (.inr hrem)))
  obtain ⟨-, -, group', heg', hlg⟩ := mem_siblings.1 g.leaving_mem_siblings
  rw [heg] at heg'
  exact hex d g.leaving group ⟨hc d hdc, hd⟩ hl hdg (Option.some.inj heg' ▸ hlg)

end Stage

end Session

open Session (Stage)

/-- A toggle that is refused because a pack is needed stops at a stage where that pack is leaving:
it is selected and not required, and what is named are the packs that need it, are selected and have
not left. Those of them that make way themselves are the ones that would have left later, and where
the selected packs are exclusive they would have left for a pack that is still waiting. Unless one
selected pack that makes way needs another, a pack is named that does not make way. -/
theorem Context.Reachable.toggle_needed {c : Context} {s : Session} {name pack : String}
    {dependents : List String} (h : c.Reachable s)
    (hfail : (s.toggle name true).result = .error (.packNeeded pack dependents)) :
    ∃ p ∈ s.candidates, p.name = name ∧ ∃ g : s.Stage p,
      g.leaving.name = pack ∧ pack ∈ s.selected ∧ g.leaving.required ≠ true ∧ dependents ≠ [] ∧
      (∀ other, other ∈ dependents ↔ other ∈ s.selected ∧ ∃ d, d ≠ g.leaving ∧
        c.catalog.Needs d g.leaving ∧ d.name = other ∧ ¬ g.HasLeft d) ∧
      (∀ d ∈ c.catalog.packs, d.name ∈ dependents →
        (s.MakesWay name d ↔ g.Due d) ∧
          (Exclusive s.Picked → g.Due d → ∃ r ∈ g.waiting, d ∈ s.siblings r)) ∧
      ((∀ d q, s.Picked d → s.MakesWay name d → s.Picked q → s.MakesWay name q →
        c.catalog.Needs d q → d = q) →
          ∃ other ∈ dependents, ¬ ∃ d, s.MakesWay name d ∧ d.name = other) := by
  have hc := h.known
  have hcatalog : s.context.catalog = c.catalog := congrArg Context.catalog h.context_eq
  obtain ⟨p, hp, rfl, hsel⟩ := Session.toggle_eq_needed hc hfail
  obtain ⟨g, selected, hreached, hd⟩ := Session.selectionWith_eq_needed (hc p hp) hsel
  have hlc : g.leaving ∈ s.candidates := (Session.mem_siblings.1 g.leaving_mem_siblings).1
  obtain ⟨rfl, hin, hreq, hne, hnames⟩ := Session.displace_eq_needed (hc _ hlc) hd
  have hlsel := ((Stage.mem_reached hc hp hreached (hc _ hlc)
    (Stage.not_entered_of_needs ReflTransGen.refl)).1 hin).1
  have hmem := Stage.mem_dependents hc hp hreached hnames
  -- A name among the dependents fixes the pack.
  have hdependent : ∀ d ∈ s.context.catalog.packs, d.name ∈ dependents →
      d.name ∈ s.selected ∧ d ≠ g.leaving ∧ s.context.catalog.Needs d g.leaving ∧
        ¬ g.HasLeft d := by
    intro d hdc hdn
    obtain ⟨hsel, d', hdl, hneeds, hname, hleft⟩ := (hmem d.name).1 hdn
    obtain rfl := Catalog.name_inj (hneeds.mem_of_ne hdl) hdc hname
    exact ⟨hsel, hdl, hneeds, hleft⟩
  rw [← hcatalog]
  refine ⟨p, hp, rfl, g, rfl, hlsel, hreq, hne, hmem, fun d hdc hdn => ?_, fun hapart => ?_⟩
  · obtain ⟨hsel, hdl, -, hleft⟩ := hdependent d hdc hdn
    rw [Stage.makesWay_iff hc hp g, or_iff_right hleft, or_iff_right hdl]
    exact ⟨Iff.rfl, fun hex hdue =>
      Stage.waiting_of_due hc hex ⟨hc _ hlc, hlsel⟩ hsel hdl hdue⟩
  · obtain ⟨other, hother⟩ := List.exists_mem_of_ne_nil dependents hne
    refine ⟨other, hother, ?_⟩
    rintro ⟨d, hway, rfl⟩
    obtain ⟨hsel, hdl, hneeds, -⟩ := hdependent d (hc d hway.1) hother
    have hlway : s.MakesWay p.name g.leaving :=
      (Stage.makesWay_iff hc hp g).2 (.inr (.inl rfl))
    exact hdl (hapart d g.leaving ⟨hc d hway.1, hsel⟩ hway ⟨hc _ hlc, hlsel⟩ hlway hneeds)

/-- In a studio `paint` has brought `red` along, and it does not make way for `blue`. -/
theorem Context.palette_toggle_needed : ∃ s, Context.palette.Reachable s ∧
    s.selected.toList = ["paint", "red"] ∧
    (s.toggle "blue" true).result = .error (.packNeeded "red" ["paint"]) ∧
    ∃ other ∈ ["paint"], ¬ ∃ d, s.MakesWay "blue" d ∧ d.name = other := by
  let studio := Change.setVariable "STUDIO" "yes"
  let paint := Change.toggle "paint" true
  obtain ⟨s, hs, hsel, hfail⟩ : ∃ s, Context.palette.Reachable s ∧
      s.selected.toList = ["paint", "red"] ∧
      (s.toggle "blue" true).result = .error (.packNeeded "red" ["paint"]) := by
    have hs : Context.palette.Reachable (paint.apply (studio.apply Session.palette)) :=
      (Session.palette_reachable.changed trivial).changed trivial
    exact ⟨_, hs, by cbv, by cbv⟩
  have hred : ∀ d, s.Picked d → s.MakesWay "blue" d → d.name = "red" := by
    rintro d hd ⟨-, -, group, -, -, -, hgroup⟩
    have hname : d.name ∈ ["paint", "red"] := hsel ▸ hd.2
    have hpalette : d ∈ Definition.palette.packs := by
      rw [← (ofDefinition_eq_ok ofDefinition_palette).2, ← hs.context_eq]
      exact hd.1
    simp only [Definition.palette, List.mem_cons, List.not_mem_nil, or_false] at hpalette
    rcases hpalette with rfl | rfl | rfl
    · cases hgroup
    · rfl
    · exact absurd hname (by decide)
  obtain ⟨-, -, -, -, -, -, -, -, -, -, hstays⟩ := hs.toggle_needed hfail
  refine ⟨s, hs, hsel, hfail, hstays fun d q hd hdway hq hqway _ => ?_⟩
  exact Catalog.name_inj hd.1 hq.1 ((hred d hd hdway).trans (hred q hq hqway).symm)

/-! ## Two orders of the same dependencies -/

/-- An installer of six packs. There are two compilers and two editors, and `vi` needs the compiler
`gcc`. Both `lab` and `dev` need the other compiler and the other editor. -/
def Definition.bench : Definition where
  packs := [
    { name := "gcc", excludeGroup := some "cc" },
    { name := "tcc", preselected := false, excludeGroup := some "cc" },
    { name := "vi", dependencies := ["gcc"], excludeGroup := some "edit" },
    { name := "ed", preselected := false, excludeGroup := some "edit" },
    { name := "lab", preselected := false, dependencies := ["tcc", "ed"] },
    { name := "dev", preselected := false, dependencies := ["ed", "tcc"] }]

theorem Definition.bench_loads :
    (Context.ofDefinition Definition.bench {}).toOption.isSome = true := by cbv

/-- What is known about the installer of `Definition.bench`. -/
def Context.bench : Context :=
  (Context.ofDefinition Definition.bench {}).toOption.get Definition.bench_loads

theorem Context.bench_opens : (Context.bench.openSession ∅).toOption.isSome = true := by cbv

/-- A session of the installer of `Definition.bench` in which nothing has been done. -/
def Session.bench : Session := (Context.bench.openSession ∅).toOption.get Context.bench_opens

theorem Context.bench_packs : Context.bench.catalog.packs = Definition.bench.packs :=
  (ofDefinition_eq_ok (eq_ok_get Definition.bench_loads)).2

/-- `vi` alone keeps `gcc` in and makes way for `ed`, which `lab` lists behind `tcc`. Putting `dev`
in succeeds. -/
theorem Context.bench_toggle_needed : ∃ s, Context.bench.Reachable s ∧
    s.selected.toList = ["gcc", "vi"] ∧
    (s.toggle "lab" true).result = .error (.packNeeded "gcc" ["vi"]) ∧
    (∀ other ∈ ["vi"], ∃ d, s.MakesWay "lab" d ∧ d.name = other) ∧
    (s.toggle "dev" true).result = .ok () ∧
    (s.toggle "dev" true).session.selected.toList = ["dev", "ed", "tcc"] := by
  have hs : Context.bench.Reachable Session.bench := .opened (eq_ok_get Context.bench_opens)
  have hcand : Session.bench.candidates = Definition.bench.packs := by cbv
  have hpacks : Session.bench.context.catalog.packs = Definition.bench.packs := by
    rw [hs.context_eq, Context.bench_packs]
  obtain ⟨vi, hvi, hname, hvg⟩ : ∃ p ∈ Definition.bench.packs, p.name = "vi" ∧
      p.excludeGroup = some "edit" := by simp [Definition.bench]
  obtain ⟨ed, hed, hedname, heg⟩ : ∃ p ∈ Definition.bench.packs, p.name = "ed" ∧
      p.excludeGroup = some "edit" := by simp [Definition.bench]
  obtain ⟨lab, hlab, hlabname, hneeds⟩ : ∃ p ∈ Definition.bench.packs, p.name = "lab" ∧
      "ed" ∈ p.dependencies := by simp [Definition.bench]
  have hbrings : Session.bench.Brings "lab" ed := ⟨lab, hpacks ▸ hlab, hlabname,
    ReflTransGen.single ⟨hpacks ▸ hlab, hpacks ▸ hed, hedname ▸ hneeds⟩⟩
  have hway : Session.bench.MakesWay "lab" vi :=
    ⟨hcand ▸ hvi, ed, "edit", hbrings, fun he => by simp [← he, hedname] at hname, heg, hvg⟩
  refine ⟨_, hs, by cbv, by cbv, fun other hother => ⟨vi, hway, ?_⟩, by cbv, by cbv⟩
  rw [hname, List.mem_singleton.1 hother]

end PackChoice
