import PackChoice.Proofs.Session.Reselection

/-!
Which selected packs closing keeps. It asks for the candidates that are required or selected, so a
pack selected from outside the candidates is frozen exactly when such a candidate needs it, that is
when it is anchored (`packNames_iff_anchored`). All ways to make a selection anchor it. A toggle can
strand a pack: it takes out a candidate and leaves behind what that one brought in from outside the
candidates. Where no toggle has done so, closing drops nothing (`proceed_keeps_selected`).
-/

namespace PackChoice

open Relation (ReflTransGen)

namespace Session

variable {s t : Session} {p q : Pack} {packs : List Pack} {name : String} {names : List String}
  {selected : NameSet}

/-- A candidate that is required or selected needs the pack with a name. -/
def Anchored (s : Session) (name : String) : Prop :=
  ∃ q ∈ s.candidates, (q.required = true ∨ q.name ∈ s.selected) ∧
    ∃ p, s.context.catalog.Needs q p ∧ p.name = name

/-- All that is selected is anchored. -/
def Moored (s : Session) : Prop := ∀ name ∈ s.selected, s.Anchored name

theorem anchored_of_mem (hp : p ∈ s.candidates) (hsel : p.name ∈ s.selected) :
    s.Anchored p.name :=
  ⟨p, hp, .inr hsel, p, ReflTransGen.refl, rfl⟩

theorem packNames_iff_anchored (hc : ∀ p ∈ s.candidates, p ∈ s.context.catalog.packs)
    {d : ClosedSession} (hd : s.proceed = .ok d) : name ∈ d.packNames ↔ s.Anchored name := by
  obtain ⟨hr, -⟩ := resolution_eq_ok_iff.1 (proceed_eq_ok_iff.1 hd).1
  obtain ⟨hio, -, -⟩ := Catalog.resolve_eq_ok hc hr
  rw [ClosedSession.packNames, Pack.mem_names]
  constructor
  · rintro ⟨p, hp, hname⟩
    obtain ⟨q, hq, hqp⟩ := (hio.mem_iff p).1 hp
    obtain ⟨hcand, hwanted⟩ := mem_wanted_requested.1 hq
    exact ⟨q, hcand, hwanted, p, hqp, hname⟩
  · rintro ⟨q, hq, hwanted, p, hqp, hname⟩
    exact ⟨p, (hio.mem_iff p).2 ⟨q, mem_wanted_requested.2 ⟨hq, hwanted⟩, hqp⟩, hname⟩

/-! ## New selections -/

/-- A selection of candidates is anchored in itself. -/
theorem moored_of_candidates (h : ∀ name ∈ s.selected, name ∈ Pack.names s.candidates) :
    s.Moored := by
  intro name hsel
  obtain ⟨p, hp, rfl⟩ := Pack.mem_names.1 (h name hsel)
  exact anchored_of_mem hp hsel

theorem moored_of_openSession {c : Context} {vars : Variables} (h : c.openSession vars = .ok s) :
    s.Moored := by
  refine moored_of_candidates fun name hsel => ?_
  obtain ⟨p, hp, -, rfl⟩ := (mem_openSession_selected h).1 hsel
  exact Pack.name_mem_names hp

theorem moored_of_withInstallGroup (h : s.withInstallGroup name = .ok t) : t.Moored := by
  obtain ⟨available, groups, group, -, -, -, rfl⟩ := withInstallGroup_eq_ok_iff.1 h
  refine moored_of_candidates fun name hsel => ?_
  obtain ⟨p, hp, rfl, -⟩ := mem_initialSelection.1 hsel
  exact Pack.name_mem_names (List.mem_filter.1 hp).1

theorem moored_of_refreshed (h : s.refreshed = .ok t) : t.Moored :=
  moored_of_candidates fun _ hsel => ((mem_refreshed_selected h).1 hsel).1

theorem moored_of_resolve (hc : ∀ p ∈ s.candidates, p ∈ s.context.catalog.packs)
    (h : s.context.catalog.resolve s.candidates names = .ok packs) :
    ({ s with selected := .ofList (Pack.names packs) } : Session).Moored := by
  obtain ⟨hio, -, -⟩ := Catalog.resolve_eq_ok hc h
  intro name hsel
  obtain ⟨p, hp, rfl⟩ := Pack.mem_names.1 (NameSet.mem_ofList.1 hsel)
  obtain ⟨q, hq, hqp⟩ := (hio.mem_iff p).1 hp
  have hqsel := NameSet.mem_ofList.2 (Pack.name_mem_names (hio.mem_of_seed hq))
  exact ⟨q, (Catalog.mem_wanted.1 hq).1, .inr hqsel, p, hqp, rfl⟩

/-! ## Toggles -/

/-- A selected candidate goes that needs a pack from outside the candidates. -/
def Strands (s : Session) (selected : NameSet) : Prop :=
  ∃ q ∈ s.candidates, q.name ∈ s.selected ∧ q.name ∉ selected ∧
    ∃ p, s.context.catalog.Needs q p ∧ p ∉ s.candidates

/-- What stays selected stays anchored, unless the candidate that anchored it went and it is no
candidate itself. -/
theorem Moored.anchored_of_stays (h : s.Moored) (hs : ¬ s.Strands selected)
    (hname : name ∈ s.selected) (hstays : name ∈ selected) :
    ({ s with selected } : Session).Anchored name := by
  obtain ⟨q, hq, hwanted, p, hqp, rfl⟩ := h name hname
  by_cases hkept : q.required = true ∨ q.name ∈ selected
  · exact ⟨q, hq, hkept, p, hqp, rfl⟩
  · obtain ⟨hnotreq, hgone⟩ := not_or.1 hkept
    have hqsel := hwanted.resolve_left hnotreq
    have hcand : p ∈ s.candidates := by
      by_contra hout
      exact hs ⟨q, hq, hqsel, hgone, p, hqp, hout⟩
    exact anchored_of_mem (s := { s with selected }) hcand hstays

theorem Moored.toggled (hc : ∀ p ∈ s.candidates, p ∈ s.context.catalog.packs) (h : s.Moored)
    {on : Bool} (hp : p ∈ s.candidates)
    (hsel : (if on then s.selectionWith p else s.selectionWithout p) = .ok selected)
    (hs : ¬ s.Strands selected) : ({ s with selected } : Session).Moored := by
  intro name hname
  cases on with
  | true =>
    have hmem : ∀ name, name ∈ selected ↔ _ := fun _ => mem_selectionWith hc (hc p hp) hsel
    rcases (hmem name).1 hname with ⟨q, hpq, rfl⟩ | ⟨hbefore, -⟩
    · have hpsel : p.name ∈ selected := (hmem p.name).2 (.inl ⟨p, ReflTransGen.refl, rfl⟩)
      exact ⟨p, hp, .inr hpsel, q, hpq, rfl⟩
    · exact h.anchored_of_stays hs hbefore hname
  | false =>
    have hbefore := ((mem_selectionWithout hsel).1 hname).1
    exact h.anchored_of_stays hs hbefore hname

end Session

/-- If the change is a toggle then it strands nothing. -/
def Change.StrandsNone (s : Session) : Change → Prop
  | toggle name on => ¬ s.Strands (s.toggle name on).session.selected
  | _ => True

namespace Context

variable {c : Context} {s : Session}

theorem ReachableBy.moored (h : c.ReachableBy Change.StrandsNone s) : s.Moored := by
  refine h.keeps_selected (P := Session.Moored) (fun _ _ ho => Session.moored_of_openSession ho)
    (fun _ _ _ hs => hs) (fun s name on p selected hs hp hm hcand hsel ht => ?_)
    (fun _ _ _ hs hr => Session.moored_of_resolve hs.known hr)
    (fun _ _ _ _ hg => Session.moored_of_withInstallGroup hg)
    (fun _ _ _ _ _ _ hr => Session.moored_of_refreshed hr) (fun _ _ _ hs => hs)
  rw [Change.StrandsNone, ht] at hp
  exact hm.toggled hs.known hcand hsel hp

/-- Closing keeps the selected candidates, and of the other selected packs those that are anchored,
which are all of them where no toggle has stranded one. -/
theorem Reachable.proceed_keeps_selected (h : c.Reachable s) {d : ClosedSession}
    (hd : s.proceed = .ok d) :
    (∀ p ∈ s.candidates, p.name ∈ s.selected → p.name ∈ d.packNames) ∧
      (∀ name ∈ s.selected, name ∈ d.packNames ↔ s.Anchored name) ∧
      (c.ReachableBy Change.StrandsNone s → ∀ name ∈ s.selected, name ∈ d.packNames) := by
  have hiff : ∀ name, name ∈ d.packNames ↔ s.Anchored name :=
    fun name => Session.packNames_iff_anchored h.known hd
  exact ⟨fun p hp hsel => (hiff p.name).2 (Session.anchored_of_mem hp hsel),
    fun name _ => hiff name, fun hr name hname => (hiff name).2 (hr.moored name hname)⟩

/-- In a studio `red` is a candidate, so it is kept when `paint`, which brought it in, has gone. -/
theorem palette_proceed_keeps_selected : ∃ s d, palette.ReachableBy Change.StrandsNone s ∧
    s.proceed = .ok d ∧ s.selected.toList = ["red"] ∧ d.packNames = ["red"] ∧
      ∀ name ∈ s.selected, name ∈ d.packNames := by
  let studio := Change.setVariable "STUDIO" "yes"
  let paintOn := Change.toggle "paint" true
  let paintOff := Change.toggle "paint" false
  have hall : ∀ s, palette.Reachable s → Pack.names s.candidates = ["paint", "red", "blue"] →
      ∀ name on, Change.StrandsNone s (.toggle name on) := by
    intro s hs hcand name on
    rintro ⟨q, hq, -, -, p, hqp, hout⟩
    have hp := hqp.mem (hs.known q hq)
    refine hout ((Catalog.name_mem_names_iff hs.known hp).1 ?_)
    have hnames : Pack.names s.context.catalog.packs = ["paint", "red", "blue"] := by
      rw [hs.context_eq]
      cbv
    rw [hcand, ← hnames]
    exact Pack.name_mem_names hp
  have hstudio : palette.ReachableBy Change.StrandsNone (studio.apply Session.palette) :=
    Session.palette_reachable.changed trivial
  have hon := hstudio.changed (hall _ hstudio.reachable (by cbv) "paint" true)
  have hs : palette.ReachableBy Change.StrandsNone
      (paintOff.apply (paintOn.apply (studio.apply Session.palette))) :=
    hon.changed (hall _ hon.reachable (by cbv) "paint" false)
  have hok : (paintOff.apply (paintOn.apply (studio.apply Session.palette))).proceed.toOption.isSome
      = true := by cbv
  have hd := eq_ok_get hok
  exact ⟨_, _, hs, hd, by cbv, by cbv, (hs.reachable.proceed_keeps_selected hd).2.2 hs⟩

/-- Outside the studio `red` is no candidate. It stays selected when `paint` goes, and closing drops
it. -/
theorem palette_proceed_drops_selected : ∃ s d, palette.Reachable s ∧ s.proceed = .ok d ∧
    "red" ∈ s.selected ∧ "red" ∉ d.packNames := by
  let paintOn := Change.toggle "paint" true
  let paintOff := Change.toggle "paint" false
  have hs : palette.Reachable (paintOff.apply (paintOn.apply Session.palette)) :=
    (Session.palette_reachable.changed trivial).changed trivial
  obtain ⟨d, hd, hnames⟩ : ∃ d, (paintOff.apply (paintOn.apply Session.palette)).proceed = .ok d ∧
      d.packNames = [] := by
    have hok : (paintOff.apply (paintOn.apply Session.palette)).proceed.toOption.isSome = true := by
      cbv
    exact ⟨_, eq_ok_get hok, by cbv⟩
  have hsel : (paintOff.apply (paintOn.apply Session.palette)).selected.toList = ["red"] := by cbv
  refine ⟨_, d, hs, hd, ?_, ?_⟩
  · rw [← NameSet.mem_toList, hsel]
    exact List.mem_singleton_self _
  · rw [hnames]
    exact List.not_mem_nil

end Context

end PackChoice
