import PackChoice.Proofs.Session.Candidates
import PackChoice.Proofs.Session.Selection

/-!
Exclude groups under toggles. Putting a pack in takes out the candidates that share an exclude group
with a pack that comes in. A pack that was selected as a dependency need not be a candidate, and
then it stays. So a toggle keeps the selected packs exclusive exactly when no such pack shares an
exclude group with one that comes in (`toggle_exclusive_iff`).
-/

namespace PackChoice

namespace Session

variable {s : Session} {p q : Pack} {selected' : NameSet} {name : String}

/-- A pack of the catalog is selected, as a candidate or as a dependency. -/
def Picked (s : Session) (p : Pack) : Prop := p ∈ s.context.catalog.packs ∧ p.name ∈ s.selected

/-- A pack comes in when the one with a name is put in: it is that pack or needed by it. -/
def Brings (s : Session) (name : String) (p : Pack) : Prop :=
  ∃ q ∈ s.context.catalog.packs, q.name = name ∧ s.context.catalog.Needs q p

/-- No pack that is selected from outside the candidates shares an exclude group with a pack that
comes in. -/
def ClearFor (s : Session) (name : String) : Prop :=
  ∀ p q group, s.Picked p → p ∉ s.candidates → s.Brings name q →
    p.excludeGroup = some group → q.excludeGroup = some group → p = q

theorem exclusive_of_selected_eq (h : s.selected.toList = [name]) : Exclusive s.Picked := by
  intro p q _ hp hq _ _
  have hname : ∀ r, s.Picked r → r.name = name := by
    intro r hr
    rw [← List.mem_singleton, ← h]
    exact hr.2
  exact Catalog.name_inj hp.1 hq.1 ((hname p hp).trans (hname q hq).symm)

theorem selectionWithout_exclusive (hex : Exclusive s.Picked)
    (h : s.selectionWithout p = .ok selected') :
    Exclusive ({ s with selected := selected' } : Session).Picked :=
  hex.mono fun _ hq => ⟨hq.1, ((mem_selectionWithout h).1 hq.2).1⟩

theorem brings_iff (hp : p ∈ s.context.catalog.packs) :
    s.Brings p.name q ↔ s.context.catalog.Needs p q := by
  constructor
  · rintro ⟨r, hr, hname, hrq⟩
    rwa [← Catalog.name_inj hr hp hname]
  · exact fun hpq => ⟨p, hp, rfl, hpq⟩

theorem picked_selectionWith (hc : ∀ q ∈ s.candidates, q ∈ s.context.catalog.packs)
    (hp : p ∈ s.context.catalog.packs) (h : s.selectionWith p = .ok selected') :
    ({ s with selected := selected' } : Session).Picked q ↔
      s.Brings p.name q ∨ s.Picked q ∧ ∀ r, s.Brings p.name r → q ∉ s.siblings r := by
  have hmem : q.name ∈ selected' ↔ _ := mem_selectionWith hc hp h
  have hnot : q ∈ s.context.catalog.packs → ∀ r,
      (q.name ∉ Pack.names (s.siblings r) ↔ q ∉ s.siblings r) :=
    fun hq r => not_congr (name_mem_siblings_iff hc hq)
  simp only [Picked, brings_iff hp, hmem]
  constructor
  · rintro ⟨hq, ⟨r, hpr, hname⟩ | ⟨hsel, hall⟩⟩
    · exact .inl (Catalog.name_inj (hpr.mem hp) hq hname ▸ hpr)
    · exact .inr ⟨⟨hq, hsel⟩, fun r hr => (hnot hq r).1 (hall r hr)⟩
  · rintro (hpq | ⟨⟨hq, hsel⟩, hall⟩)
    · exact ⟨hpq.mem hp, .inl ⟨q, hpq, rfl⟩⟩
    · exact ⟨hq, .inr ⟨hsel, fun r hr => (hnot hq r).2 (hall r hr)⟩⟩

theorem selectionWith_exclusive_iff (hc : ∀ q ∈ s.candidates, q ∈ s.context.catalog.packs)
    (hp : p ∈ s.context.catalog.packs) (hex : Exclusive s.Picked)
    (h : s.selectionWith p = .ok selected') :
    Exclusive ({ s with selected := selected' } : Session).Picked ↔ s.ClearFor p.name := by
  have hpicked := fun q => picked_selectionWith (q := q) hc hp h
  constructor
  · intro hafter a b group ha hout hb hag hbg
    refine hafter a b group ((hpicked a).2 (.inr ⟨ha, fun r _ hr => hout ?_⟩))
      ((hpicked b).2 (.inl hb)) hag hbg
    exact (mem_siblings.1 hr).1
  · intro hclear
    obtain ⟨closed, hio, -, hcex, -⟩ := selectionWith_eq_ok hp h
    have hcome : Exclusive (s.Brings p.name) :=
      hcex.mono fun q hq => hio.mem_iff_needs.2 ((brings_iff hp).1 hq)
    -- A pack that stays and one that comes in: the first is no candidate, as it is no sibling.
    have hcross : ∀ a b group, s.Picked a → (∀ r, s.Brings p.name r → a ∉ s.siblings r) →
        s.Brings p.name b → a.excludeGroup = some group → b.excludeGroup = some group → a = b := by
      intro a b group ha hstay hb hag hbg
      by_cases hac : a ∈ s.candidates
      · by_contra hne
        have hbc : b ∈ s.context.catalog.packs := ((brings_iff hp).1 hb).mem hp
        have hname : a.name ≠ b.name := fun he => hne (Catalog.name_inj ha.1 hbc he)
        exact hstay b hb (mem_siblings.2 ⟨hac, hname, group, hbg, hag⟩)
      · exact hclear a b group ha hac hb hag hbg
    intro a b group ha hb hag hbg
    rcases (hpicked a).1 ha with ha | ⟨ha, hastay⟩
    · rcases (hpicked b).1 hb with hb | ⟨hb, hbstay⟩
      · exact hcome a b group ha hb hag hbg
      · exact (hcross b a group hb hbstay ha hbg hag).symm
    · rcases (hpicked b).1 hb with hb | ⟨hb, -⟩
      · exact hcross a b group ha hastay hb hag hbg
      · exact hex a b group ha hb hag hbg

end Session

/-- A toggle that is made keeps the selected packs exclusive, unless it puts in a pack of an exclude
group of which a pack is selected that is no candidate. -/
theorem Context.Reachable.toggle_exclusive_iff {c : Context} {s : Session} {name : String}
    {on : Bool} (h : c.Reachable s) (hex : Exclusive s.Picked)
    (hok : (s.toggle name on).result = .ok ()) :
    Exclusive (s.toggle name on).session.Picked ↔ (on = true → s.ClearFor name) := by
  have hc := h.known
  rcases s.toggle_cases name on with ⟨e, ht⟩ | ⟨p, selected, hp, hsel, ht⟩
  · rw [ht] at hok
    cases hok
  · obtain ⟨hpc, rfl⟩ := Session.candidate_eq_ok hc hp
    rw [ht]
    cases on with
    | true =>
      rw [Session.selectionWith_exclusive_iff hc (hc p hpc) hex hsel]
      exact ⟨fun hclear _ => hclear, fun hclear => hclear rfl⟩
    | false =>
      exact ⟨fun _ hon => absurd hon (by decide),
        fun _ => Session.selectionWithout_exclusive hex hsel⟩

/-- In a studio `red` is a candidate, so it makes way for `blue`. -/
theorem Context.palette_toggle_exclusive : ∃ s,
    Context.palette.Reachable s ∧ s.selected.toList = ["red"] ∧ Exclusive s.Picked ∧
      (s.toggle "blue" true).result = .ok () ∧
      (s.toggle "blue" true).session.selected.toList = ["blue"] ∧
      Exclusive (s.toggle "blue" true).session.Picked := by
  let studio := Change.setVariable "STUDIO" "yes"
  let red := Change.toggle "red" true
  obtain ⟨s, hs, hsel, hcand, hok, hafter⟩ : ∃ s, Context.palette.Reachable s ∧
      s.selected.toList = ["red"] ∧ Pack.names s.candidates = ["paint", "red", "blue"] ∧
      (s.toggle "blue" true).result = .ok () ∧
      (s.toggle "blue" true).session.selected.toList = ["blue"] := by
    have hs : Context.palette.Reachable (red.apply (studio.apply Session.palette)) :=
      (Session.palette_reachable.changed trivial).changed trivial
    exact ⟨_, hs, by cbv, by cbv, by cbv, by cbv⟩
  have hclear : s.ClearFor "blue" := by
    intro p _ _ hp hout
    have hname : p.name = "red" := by
      rw [← List.mem_singleton, ← hsel]
      exact hp.2
    refine absurd ?_ hout
    rw [← Catalog.name_mem_names_iff hs.known hp.1, hcand, hname]
    decide
  have hex := Session.exclusive_of_selected_eq hsel
  exact ⟨s, hs, hsel, hex, hok, hafter, (hs.toggle_exclusive_iff hex hok).2 fun _ => hclear⟩

/-- Outside the studio `red` comes with `paint` and stays when `paint` goes. It is no candidate, so
`blue` does not push it out. -/
theorem Context.palette_toggle_shares_group : ∃ s,
    Context.palette.Reachable s ∧ s.selected.toList = ["red"] ∧ Exclusive s.Picked ∧
      (s.toggle "blue" true).result = .ok () ∧
      (s.toggle "blue" true).session.selected.toList = ["blue", "red"] ∧
      ¬ Exclusive (s.toggle "blue" true).session.Picked := by
  let paintOn := Change.toggle "paint" true
  let paintOff := Change.toggle "paint" false
  obtain ⟨s, hs, hsel, hok, hafter⟩ : ∃ s, Context.palette.Reachable s ∧
      s.selected.toList = ["red"] ∧ (s.toggle "blue" true).result = .ok () ∧
      (s.toggle "blue" true).session.selected.toList = ["blue", "red"] := by
    have hs : Context.palette.Reachable (paintOff.apply (paintOn.apply Session.palette)) :=
      (Session.palette_reachable.changed trivial).changed trivial
    exact ⟨_, hs, by cbv, by cbv, by cbv⟩
  refine ⟨s, hs, hsel, Session.exclusive_of_selected_eq hsel, hok, hafter, fun hex => ?_⟩
  have hpacks : (s.toggle "blue" true).session.context.catalog.packs =
      Definition.palette.packs := by
    have ht : Context.palette.Reachable ((Change.toggle "blue" true).apply s) := hs.changed trivial
    have hcontext : (s.toggle "blue" true).session.context = Context.palette := ht.context_eq
    rw [hcontext]
    exact (ofDefinition_eq_ok ofDefinition_palette).2
  have hpicked : ∀ name ∈ ["blue", "red"], ∃ p, (s.toggle "blue" true).session.Picked p ∧
      p.name = name ∧ p.excludeGroup = some "colour" := by
    intro name hname
    have hmem : ∃ p ∈ Definition.palette.packs, p.name = name ∧ p.excludeGroup = some "colour" := by
      rcases List.mem_pair.1 hname with rfl | rfl <;> simp [Definition.palette]
    obtain ⟨p, hp, rfl, hgroup⟩ := hmem
    exact ⟨p, ⟨hpacks ▸ hp, NameSet.mem_toList.1 (hafter ▸ hname)⟩, rfl, hgroup⟩
  obtain ⟨p, hp, hpname, hpg⟩ := hpicked "blue" (by decide)
  obtain ⟨q, hq, hqname, hqg⟩ := hpicked "red" (by decide)
  have hpq := hex p q "colour" hp hq hpg hqg
  rw [hpq, hqname] at hpname
  exact absurd hpname (by decide)

end PackChoice
