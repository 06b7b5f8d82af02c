import PackChoice.Proofs.Session.Exclusion

/-!
What a toggle changes, and what it leaves alone (`toggle_selects`). A pack goes alone. A pack comes
with all that it needs, and every candidate makes way that shares an exclude group with another one
of these packs. Such a candidate goes only when nothing that is selected by then needs it. So a
selection that holds the dependencies of its packs still does so after a toggle
(`SelfContained.selectionWith`), whether the packs are candidates or not.
-/

namespace PackChoice

open Relation (ReflTransGen)

/-- A selection holds the dependencies of its packs. -/
def Catalog.SelfContained (c : Catalog) (selected : NameSet) : Prop :=
  ∀ p q, c.DependsOn p q → p.name ∈ selected → q.name ∈ selected

variable {s : Session} {selected selected' : NameSet} {p q : Pack} {packs : List Pack}
  {name other : String}

namespace Catalog.SelfContained

variable {c : Catalog}

theorem erase (h : c.SelfContained selected) (hp : p ∈ c.packs)
    (hd : ∀ q, c.DependsOn q p → q.name ∈ selected → q = p) :
    c.SelfContained (selected.erase p.name) := by
  intro a b hab ha
  obtain ⟨ha, hne⟩ := NameSet.mem_erase.1 ha
  refine NameSet.mem_erase.2 ⟨h a b hab ha, fun hb => hne ?_⟩
  rw [Catalog.name_inj hab.2.1 hp hb] at hab
  rw [hd a hab ha]

theorem insert (h : c.SelfContained selected) (hp : p ∈ c.packs)
    (hd : ∀ q, c.DependsOn p q → q.name ∈ selected) : c.SelfContained (selected.insert p.name) := by
  intro a b hab ha
  refine NameSet.mem_insert.2 (.inr ?_)
  rcases NameSet.mem_insert.1 ha with hname | ha
  · exact hd b (Catalog.name_inj hab.1 hp hname ▸ hab)
  · exact h a b hab ha

theorem displace (h : s.context.catalog.SelfContained selected) (hp : p ∈ s.context.catalog.packs)
    (hok : s.displace selected p = .ok selected') : s.context.catalog.SelfContained selected' := by
  rcases Session.displace_cases hp hok with rfl | ⟨-, hd, rfl⟩
  · exact h
  · exact h.erase hp hd

theorem withPack (hc : ∀ q ∈ s.candidates, q ∈ s.context.catalog.packs)
    (h : s.context.catalog.SelfContained selected) (hp : p ∈ s.context.catalog.packs)
    (hd : ∀ q, s.context.catalog.DependsOn p q → q.name ∈ selected ∧ q ∉ s.siblings p)
    (hok : s.withPack selected p = .ok selected') : s.context.catalog.SelfContained selected' := by
  obtain ⟨rest, hrest, rfl⟩ := Session.withPack_eq_ok hok
  have hkept : s.context.catalog.SelfContained rest :=
    foldlM_keeps (P := s.context.catalog.SelfContained)
      (fun q hq _ _ ha ho => ha.displace (hc q (Session.mem_siblings.1 hq).1) ho) h hrest
  refine hkept.insert hp fun q hq => ?_
  obtain ⟨hsel, hnot⟩ := hd q hq
  exact (Session.mem_displaceAll hrest).2
    ⟨hsel, fun hm => hnot ((Session.name_mem_siblings_iff hc hq.2.1).1 hm)⟩

theorem selectionWith (hc : ∀ q ∈ s.candidates, q ∈ s.context.catalog.packs)
    (h : s.context.catalog.SelfContained s.selected) (hp : p ∈ s.context.catalog.packs)
    (hok : s.selectionWith p = .ok selected') : s.context.catalog.SelfContained selected' := by
  obtain ⟨closed, hio, -, hex, hok⟩ := Session.selectionWith_eq_ok hp hok
  have hknown : ∀ q ∈ closed, q ∈ s.context.catalog.packs :=
    fun q hq => (hio.mem_iff_needs.1 hq).mem hp
  exact Session.withPacks_keeps (P := s.context.catalog.SelfContained) hc hknown hex
    hio.dependencies_before (fun q hq _ _ hd ha hnext => ha.withPack hc (hknown q hq) hd hnext) h hok

theorem selectionWithout (h : s.context.catalog.SelfContained s.selected)
    (hp : p ∈ s.context.catalog.packs) (hok : s.selectionWithout p = .ok selected') :
    s.context.catalog.SelfContained selected' := by
  obtain ⟨-, hd, rfl⟩ := Session.selectionWithout_eq_ok hok
  exact h.erase hp (Session.eq_of_selectedDependents_eq_nil hp hd)

end Catalog.SelfContained

namespace Session

/-- A candidate has to go when the pack with a name comes in: it shares an exclude group with another
pack that comes in. -/
def MakesWay (s : Session) (name : String) (q : Pack) : Prop :=
  q ∈ s.candidates ∧ ∃ r group, s.Brings name r ∧ r ≠ q ∧ r.excludeGroup = some group ∧
    q.excludeGroup = some group

theorem makesWay_iff (hc : ∀ q ∈ s.candidates, q ∈ s.context.catalog.packs) :
    s.MakesWay name q ↔ ∃ r, s.Brings name r ∧ q ∈ s.siblings r := by
  have hknown : ∀ r, s.Brings name r → r ∈ s.context.catalog.packs := by
    rintro r ⟨p, hp, -, hpr⟩
    exact hpr.mem hp
  constructor
  · rintro ⟨hq, r, group, hr, hne, hrg, hqg⟩
    have hname : q.name ≠ r.name :=
      fun he => hne (Catalog.name_inj (hc q hq) (hknown r hr) he).symm
    exact ⟨r, hr, mem_siblings.2 ⟨hq, hname, group, hrg, hqg⟩⟩
  · rintro ⟨r, hr, hsib⟩
    obtain ⟨hq, hname, group, hrg, hqg⟩ := mem_siblings.1 hsib
    exact ⟨hq, r, group, hr, fun he => hname (congrArg Pack.name he.symm), hrg, hqg⟩

theorem mem_selectionWith_iff (hc : ∀ q ∈ s.candidates, q ∈ s.context.catalog.packs)
    (hp : p ∈ s.context.catalog.packs) (h : s.selectionWith p = .ok selected') :
    other ∈ selected' ↔ (∃ q, s.Brings p.name q ∧ q.name = other) ∨
      other ∈ s.selected ∧ ¬ ∃ q, s.MakesWay p.name q ∧ q.name = other := by
  have hstays : (∀ r, s.context.catalog.Needs p r → other ∉ Pack.names (s.siblings r)) ↔
      ¬ ∃ q, s.MakesWay p.name q ∧ q.name = other := by
    simp only [makesWay_iff hc, brings_iff hp, Pack.mem_names]
    grind
  rw [mem_selectionWith hc hp h, hstays]
  simp only [brings_iff hp]

end Session

/-- A toggle that is made changes nothing but the selection. It puts in the pack and all that it needs
and takes out what has to make way for these, or it takes out the pack and nothing else. Where the
selection held the dependencies of its packs it still does. -/
theorem Context.Reachable.toggle_selects {c : Context} {on : Bool} (h : c.Reachable s)
    (hok : (s.toggle name on).result = .ok ()) :
    ∃ p ∈ s.candidates, p.name = name ∧ ∃ selected,
      (s.toggle name on).session = { s with selected } ∧
      (on = true → ∀ other, other ∈ selected ↔ (∃ q, s.Brings name q ∧ q.name = other) ∨
        other ∈ s.selected ∧ ¬ ∃ q, s.MakesWay name q ∧ q.name = other) ∧
      (on = false → selected = s.selected.erase name) ∧
      (c.catalog.SelfContained s.selected → c.catalog.SelfContained selected) := by
  have hc := h.known
  have hcatalog : s.context.catalog = c.catalog := congrArg Context.catalog h.context_eq
  rcases s.toggle_cases name on with ⟨e, ht⟩ | ⟨p, selected, hp, hsel, ht⟩
  · rw [ht] at hok
    cases hok
  · obtain ⟨hpc, rfl⟩ := Session.candidate_eq_ok hc hp
    rw [ht, ← hcatalog]
    refine ⟨p, hpc, rfl, selected, rfl, ?_⟩
    cases on with
    | true =>
      exact ⟨fun _ _ => Session.mem_selectionWith_iff hc (hc p hpc) hsel,
        fun hon => absurd hon (by decide), fun hs => hs.selectionWith hc (hc p hpc) hsel⟩
    | false =>
      exact ⟨fun hon => absurd hon (by decide), fun _ => (Session.selectionWithout_eq_ok hsel).2.2,
        fun hs => hs.selectionWithout (hc p hpc) hsel⟩

/-- In a studio `red` is a candidate. It comes with `paint`, and `blue` makes way for it. -/
theorem Context.palette_toggle_selects : ∃ s selected, Context.palette.Reachable s ∧
    s.selected.toList = ["blue"] ∧ (s.toggle "paint" true).result = .ok () ∧
    (s.toggle "paint" true).session = { s with selected } ∧ selected.toList = ["paint", "red"] ∧
    (∀ other, other ∈ selected ↔ (∃ q, s.Brings "paint" q ∧ q.name = other) ∨
      other ∈ s.selected ∧ ¬ ∃ q, s.MakesWay "paint" q ∧ q.name = other) ∧
    Context.palette.catalog.SelfContained selected := by
  let studio := Change.setVariable "STUDIO" "yes"
  let blue := Change.toggle "blue" true
  obtain ⟨s, hs, hsel, hok, hafter⟩ : ∃ s, Context.palette.Reachable s ∧
      s.selected.toList = ["blue"] ∧ (s.toggle "paint" true).result = .ok () ∧
      (s.toggle "paint" true).session.selected.toList = ["paint", "red"] := by
    have hs : Context.palette.Reachable (blue.apply (studio.apply Session.palette)) :=
      (Session.palette_reachable.changed trivial).changed trivial
    exact ⟨_, hs, by cbv, by cbv, by cbv⟩
  have hbefore : Context.palette.catalog.SelfContained s.selected := by
    rintro p q ⟨hp, -, hq⟩ hpsel
    have hname : p.name = "blue" := by
      rw [← List.mem_singleton, ← hsel]
      exact hpsel
    rw [(ofDefinition_eq_ok ofDefinition_palette).2] at hp
    simp only [Definition.palette, List.mem_cons, List.not_mem_nil, or_false] at hp
    rcases hp with rfl | rfl | rfl
    · exact absurd hname (by decide)
    · exact absurd hq List.not_mem_nil
    · exact absurd hq List.not_mem_nil
  obtain ⟨-, -, -, selected, ht, hon, -, hkept⟩ := hs.toggle_selects hok
  have hlist : selected.toList = ["paint", "red"] := by rw [← hafter, ht]
  exact ⟨s, selected, hs, hsel, hok, ht, hlist, hon rfl, hkept hbefore⟩

end PackChoice
