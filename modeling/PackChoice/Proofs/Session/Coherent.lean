import PackChoice.Proofs.Session.Frozen
import PackChoice.Proofs.Session.SelfContained

/-!
Selections that can be installed as they stand. A selection is coherent when it lies within the
candidates, is closed under dependencies, keeps to the exclude groups, holds every required
candidate and needs no circle. Resolving a coherent selection gives the selection itself
(`Coherent.resolve_ok`), and every resolution is coherent (`coherent_of_resolve`). A pack that no
other needs can be taken out and one whose dependencies are there can be put in
(`Coherent.erase`, `Coherent.insert`).
-/

namespace PackChoice.Session

open Relation (ReflTransGen TransGen)

/-- The candidates are packs of the catalog and contain all their own dependencies. -/
structure Complete (s : Session) : Prop where
  known : ∀ p ∈ s.candidates, p ∈ s.context.catalog.packs
  dependencies : ∀ p ∈ s.candidates, ∀ name ∈ p.dependencies, name ∈ Pack.names s.candidates

/-- A selection of candidates that can be installed as it stands. -/
structure Coherent (s : Session) (selected : NameSet) : Prop where
  candidates : ∀ name ∈ selected, name ∈ Pack.names s.candidates
  dependencies : ∀ p q, s.context.catalog.DependsOn p q → p.name ∈ selected → q.name ∈ selected
  exclusive : Exclusive fun p => p ∈ s.candidates ∧ p.name ∈ selected
  required : ∀ p ∈ s.candidates, p.required = true → p.name ∈ selected
  circleFree : ∀ p ∈ s.candidates, p.name ∈ selected → s.context.catalog.CircleFree p

variable {s : Session} {selected selected' : NameSet} {p q : Pack} {packs : List Pack}

theorem Complete.of_dependsOn (hc : s.Complete) (hp : p ∈ s.candidates)
    (h : s.context.catalog.DependsOn p q) : q ∈ s.candidates := by
  have hname := hc.dependencies p hp q.name h.2.2
  exact (Catalog.name_mem_names_iff hc.known h.2.1).1 hname

theorem Complete.of_needs (hc : s.Complete) (hp : p ∈ s.candidates)
    (h : s.context.catalog.Needs p q) : q ∈ s.candidates := by
  induction h with
  | refl => exact hp
  | tail _ hqr ih => exact hc.of_dependsOn ih hqr

theorem complete_with_selected (hc : s.Complete) : ({ s with selected } : Session).Complete :=
  ⟨hc.known, hc.dependencies⟩

theorem coherent_with_selected_iff :
    ({ s with selected } : Session).Coherent selected' ↔ s.Coherent selected' :=
  ⟨fun h => ⟨h.candidates, h.dependencies, h.exclusive, h.required, h.circleFree⟩,
    fun h => ⟨h.candidates, h.dependencies, h.exclusive, h.required, h.circleFree⟩⟩

/-! ## Resolutions -/

theorem coherent_of_resolve (hc : s.Complete) {names : List String}
    (h : s.context.catalog.resolve s.candidates names = .ok packs) :
    s.Coherent (.ofList (Pack.names packs)) := by
  obtain ⟨hio, hex, -⟩ := Catalog.resolve_eq_ok hc.known h
  obtain ⟨-, hfree, -⟩ := (Catalog.resolve_ok_iff hc.known).1 ⟨packs, h⟩
  have hpacks : ∀ p ∈ packs, p ∈ s.candidates := by
    intro p hp
    obtain ⟨q, hq, hqp⟩ := (hio.mem_iff p).1 hp
    exact hc.of_needs (Catalog.mem_wanted.1 hq).1 hqp
  have hknown : ∀ p ∈ packs, p ∈ s.context.catalog.packs := fun p hp => hc.known p (hpacks p hp)
  have hname : ∀ p ∈ s.context.catalog.packs,
      p.name ∈ NameSet.ofList (Pack.names packs) ↔ p ∈ packs := by
    intro p hp
    rw [NameSet.mem_ofList, Catalog.name_mem_names_iff hknown hp]
  constructor
  case candidates =>
    intro name hsel
    obtain ⟨p, hp, rfl⟩ := Pack.mem_names.1 (NameSet.mem_ofList.1 hsel)
    exact Pack.name_mem_names (hpacks p hp)
  case dependencies =>
    intro p q hpq hp
    have hq := hio.mem_of_needs ((hname p hpq.1).1 hp) (ReflTransGen.single hpq)
    exact (hname q hpq.2.1).2 hq
  case exclusive => exact hex.mono fun p hp => (hname p (hc.known p hp.1)).1 hp.2
  case required =>
    intro p hp hreq
    have hw : p ∈ Catalog.wanted s.candidates names := Catalog.mem_wanted.2 ⟨hp, .inl hreq⟩
    exact (hname p (hc.known p hp)).2 (hio.mem_of_seed hw)
  case circleFree =>
    intro p hp hsel
    obtain ⟨q, hq, hqp⟩ := (hio.mem_iff p).1 ((hname p (hc.known p hp)).1 hsel)
    exact fun r hpr => hfree q hq r (hqp.trans hpr)

namespace Coherent

/-- A coherent selection resolves to itself. -/
theorem resolve_ok (hc : s.Complete) (h : s.Coherent s.selected) :
    ∃ packs, s.context.catalog.resolve s.candidates s.requested = .ok packs ∧
      ∀ name, name ∈ Pack.names packs ↔ name ∈ s.selected := by
  have hrequested : ∀ p, p ∈ s.candidates.filter (fun p => s.selected.contains p.name) ↔
      p ∈ s.candidates ∧ p ∈ s.candidates ∧ p.name ∈ s.selected := by
    intro p
    rw [List.mem_filter, NameSet.contains_eq_true, and_self_left]
  obtain ⟨packs, hr, hmem⟩ := Catalog.resolve_of_closed
    (P := fun p => p ∈ s.candidates ∧ p.name ∈ s.selected) hc.known
    (fun p q hpq hp => ⟨hc.of_dependsOn hp.1 hpq, h.dependencies p q hpq hp.2⟩) h.exclusive
    (fun p hp hsel => h.circleFree p hp hsel.2) (fun p hp hreq => ⟨hp, h.required p hp hreq⟩)
    (fun p hp => ⟨p, hp.1, hp, ReflTransGen.refl⟩) hrequested
  refine ⟨packs, hr, fun name => ?_⟩
  constructor
  · intro hname
    obtain ⟨p, hp, rfl⟩ := Pack.mem_names.1 hname
    exact ((hmem p).1 hp).2
  · intro hname
    obtain ⟨p, hp, rfl⟩ := Pack.mem_names.1 (h.candidates name hname)
    exact Pack.name_mem_names ((hmem p).2 ⟨hp, hname⟩)

/-! ## One pack more or less -/

theorem erase (hc : s.Complete) (h : s.Coherent selected) (hp : p ∈ s.context.catalog.packs)
    (hr : p.required ≠ true)
    (hd : ∀ q, s.context.catalog.DependsOn q p → q.name ∈ selected → q = p) :
    s.Coherent (selected.erase p.name) where
  candidates name hname := h.candidates name (NameSet.mem_erase.1 hname).1
  dependencies := Catalog.SelfContained.erase h.dependencies hp hd
  exclusive := h.exclusive.mono fun q hq => ⟨hq.1, (NameSet.mem_erase.1 hq.2).1⟩
  required q hq hreq := by
    refine NameSet.mem_erase.2 ⟨h.required q hq hreq, fun hname => hr ?_⟩
    rwa [← Catalog.name_inj (hc.known q hq) hp hname]
  circleFree q hq hname := h.circleFree q hq (NameSet.mem_erase.1 hname).1

theorem insert (hc : s.Complete) (h : s.Coherent selected) (hp : p ∈ s.candidates)
    (hfree : s.context.catalog.CircleFree p)
    (hd : ∀ q, s.context.catalog.DependsOn p q → q.name ∈ selected)
    (hex : ∀ q ∈ s.candidates, q.name ∈ selected → ∀ group, p.excludeGroup = some group →
      q.excludeGroup = some group → q = p) :
    s.Coherent (selected.insert p.name) := by
  have hsel : ∀ q ∈ s.candidates, q.name ∈ selected.insert p.name → q = p ∨ q.name ∈ selected := by
    intro q hq hname
    rcases NameSet.mem_insert.1 hname with hname | hname
    · exact .inl (Catalog.name_inj (hc.known q hq) (hc.known p hp) hname)
    · exact .inr hname
  constructor
  case candidates =>
    intro name hname
    rcases NameSet.mem_insert.1 hname with rfl | hname
    · exact Pack.name_mem_names hp
    · exact h.candidates name hname
  case dependencies => exact Catalog.SelfContained.insert h.dependencies (hc.known p hp) hd
  case exclusive =>
    rintro a b group ⟨ha, has⟩ ⟨hb, hbs⟩ hga hgb
    rcases hsel a ha has with rfl | has'
    · rcases hsel b hb hbs with rfl | hbs'
      · rfl
      · exact (hex b hb hbs' group hga hgb).symm
    · rcases hsel b hb hbs with rfl | hbs'
      · exact hex a ha has' group hgb hga
      · exact h.exclusive a b group ⟨ha, has'⟩ ⟨hb, hbs'⟩ hga hgb
  case required => exact fun q hq hreq => NameSet.mem_insert.2 (.inr (h.required q hq hreq))
  case circleFree =>
    intro q hq hname
    rcases hsel q hq hname with rfl | hname
    · exact hfree
    · exact h.circleFree q hq hname

end Coherent

end PackChoice.Session
