import PackChoice.Proofs.Session.Coherent
import PackChoice.Proofs.Session.Selection

/-!
Toggles keep a selection coherent. Taking a pack out is safe because its dependents have been asked
for. Putting one in goes through everything it needs, dependencies first, and each pack of that
pushes its siblings out before it comes in; since no two of these packs are siblings, none of them
is pushed out again (`withPacks_keeps`).
-/

namespace PackChoice.Session

open Relation (ReflTransGen TransGen)

variable {s : Session} {selected selected' : NameSet} {p q : Pack} {packs : List Pack}
  {name : String}

namespace Coherent

/-! ## Taking packs out -/

theorem displace (hc : s.Complete) (h : s.Coherent selected) (hp : p ∈ s.context.catalog.packs)
    (hok : s.displace selected p = .ok selected') : s.Coherent selected' := by
  rcases displace_cases hp hok with rfl | ⟨hreq, hd, rfl⟩
  · exact h
  · exact h.erase hc hp hreq hd

theorem displaceAll (hc : s.Complete) (h : s.Coherent selected)
    (hps : ∀ p ∈ packs, p ∈ s.context.catalog.packs)
    (hok : packs.foldlM s.displace selected = .ok selected') : s.Coherent selected' :=
  foldlM_keeps (P := s.Coherent) (fun p hp _ _ ha ho => ha.displace hc (hps p hp) ho) h hok

theorem selectionWithout (hc : s.Complete) (h : s.Coherent s.selected) (hp : p ∈ s.candidates)
    (hok : s.selectionWithout p = .ok selected') : s.Coherent selected' := by
  obtain ⟨hreq, hd, rfl⟩ := selectionWithout_eq_ok hok
  exact h.erase hc (hc.known p hp) hreq (eq_of_selectedDependents_eq_nil (hc.known p hp) hd)

/-! ## Putting packs in -/

theorem withPack (hc : s.Complete) (h : s.Coherent selected) (hp : p ∈ s.candidates)
    (hfree : s.context.catalog.CircleFree p)
    (hd : ∀ q, s.context.catalog.DependsOn p q → q.name ∈ selected ∧ q ∉ s.siblings p)
    (hok : s.withPack selected p = .ok selected') : s.Coherent selected' := by
  obtain ⟨rest, hrest, rfl⟩ := withPack_eq_ok hok
  have hsib : ∀ q ∈ s.siblings p, q ∈ s.context.catalog.packs :=
    fun q hq => hc.known q (mem_siblings.1 hq).1
  refine (h.displaceAll hc hsib hrest).insert hc hp hfree (fun q hq => ?_)
    (fun q hq hsel group hpg hqg => ?_)
  · obtain ⟨hsel, hnot⟩ := hd q hq
    exact (mem_displaceAll hrest).2
      ⟨hsel, fun hm => hnot ((name_mem_siblings_iff hc.known hq.2.1).1 hm)⟩
  · by_contra hne
    have hname : q.name ≠ p.name :=
      fun he => hne (Catalog.name_inj (hc.known q hq) (hc.known p hp) he)
    have hq : q ∈ s.siblings p := mem_siblings.2 ⟨hq, hname, group, hpg, hqg⟩
    exact ((mem_displaceAll hrest).1 hsel).2 (Pack.name_mem_names hq)

theorem selectionWith (hc : s.Complete) (h : s.Coherent s.selected) (hp : p ∈ s.candidates)
    (hok : s.selectionWith p = .ok selected') : s.Coherent selected' := by
  obtain ⟨closed, hio, hfree, hex, hok⟩ := selectionWith_eq_ok (hc.known p hp) hok
  have hneeded : ∀ q ∈ closed, s.context.catalog.Needs p q := fun q hq => hio.mem_iff_needs.1 hq
  have hcand : ∀ q ∈ closed, q ∈ s.candidates := fun q hq => hc.of_needs hp (hneeded q hq)
  refine withPacks_keeps (P := s.Coherent) hc.known (fun q hq => hc.known q (hcand q hq)) hex
    hio.dependencies_before (fun q hq a a' hd ha hnext => ?_) h hok
  exact ha.withPack hc (hcand q hq) (fun r hqr => hfree r ((hneeded q hq).trans hqr)) hd hnext

end Coherent

theorem toggle_coherent (hc : s.Complete) (h : s.Coherent s.selected) (name : String) (on : Bool) :
    s.Coherent (s.toggle name on).session.selected := by
  rcases s.toggle_cases name on with ⟨e, ht⟩ | ⟨p, selected, hp, hok, ht⟩ <;> rw [ht]
  · exact h
  · obtain ⟨hp, -⟩ := candidate_eq_ok hc.known hp
    cases on with
    | true => exact h.selectionWith hc hp hok
    | false => exact h.selectionWithout hc hp hok

end PackChoice.Session
