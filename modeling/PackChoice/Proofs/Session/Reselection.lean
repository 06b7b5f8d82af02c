import PackChoice.Proofs.Session.Frozen
import PackChoice.Proofs.Session.Selection

/-!
Where selections come from. Opening a session, choosing an install group, selecting packs, replaying
a record and closing make a new selection; a toggle and a variable change the one that there is. So
a property of sessions holds of every one that can be reached if the new selections have it and the
changes keep it (`ReachableBy.keeps_selected`).
-/

namespace PackChoice

namespace Session

variable {c : Context} {s t : Session} {vars : Variables} {name : String}

/-! ## New selections -/

theorem mem_openSession_selected (h : c.openSession vars = .ok s) :
    name ∈ s.selected ↔ ∃ p ∈ s.candidates, p.isInitial = true ∧ p.name = name := by
  obtain ⟨candidates, -, h⟩ := bind_eq_ok_iff.1 h
  obtain rfl := pure_eq_ok_iff.1 h
  rw [NameSet.mem_ofList, Pack.mem_names]
  simp only [List.mem_filter, and_assoc]

theorem mem_of_preferred? {packs : List Pack} {p : Pack} (h : preferred? packs = some p) :
    p ∈ packs := by
  unfold preferred? at h
  cases hf : packs.find? (·.isInitial) with
  | some q =>
    rw [hf] at h
    exact Option.some.inj h ▸ List.mem_of_find?_eq_some hf
  | none =>
    rw [hf] at h
    exact List.mem_of_head? h

/-- Choosing a group selects eligible candidates: all that are in no exclude group and of each
exclude group the preferred one. -/
theorem mem_initialSelection {eligible : List Pack} :
    name ∈ initialSelection eligible ↔ ∃ p ∈ eligible, p.name = name ∧
      (p.excludeGroup = none ∨ ∃ group, p.excludeGroup = some group ∧
        preferred? (eligible.filter (·.excludeGroup = some group)) = some p) := by
  unfold initialSelection
  rw [NameSet.mem_ofList, Pack.mem_names]
  refine exists_congr fun p => ?_
  rw [List.mem_append, List.mem_filter, List.mem_filterMap]
  constructor
  · rintro ⟨⟨hp, hfree⟩ | ⟨group, -, hpick⟩, hname⟩
    · exact ⟨hp, hname, .inl (beq_iff_eq.1 hfree)⟩
    · obtain ⟨hp, hgroup⟩ := List.mem_filter.1 (mem_of_preferred? hpick)
      exact ⟨hp, hname, .inr ⟨group, of_decide_eq_true hgroup, hpick⟩⟩
  · rintro ⟨hp, hname, hfree | ⟨group, hgroup, hpick⟩⟩
    · exact ⟨.inl ⟨hp, beq_iff_eq.2 hfree⟩, hname⟩
    · have hknown := NameSet.mem_toList.2 (mem_excludeGroups.2 ⟨p, hp, hgroup⟩)
      exact ⟨.inr ⟨group, hknown, hpick⟩, hname⟩

theorem mem_refreshed_selected (h : s.refreshed = .ok t) :
    name ∈ t.selected ↔ name ∈ Pack.names t.candidates ∧
      (name ∈ s.selected ∨
        ∃ p ∈ t.candidates, p.name ∉ Pack.names s.candidates ∧ p.isInitial = true ∧
          p.name = name) := by
  obtain ⟨candidates, -, h⟩ := bind_eq_ok_iff.1 h
  obtain rfl := pure_eq_ok_iff.1 h
  have hadded : ∀ p : Pack, (!s.isCandidate p.name && p.isInitial) = true ↔
      p.name ∉ Pack.names s.candidates ∧ p.isInitial = true := by
    intro p
    simp [isCandidate]
  rw [NameSet.mem_filter, NameSet.mem_insertAll, List.contains_iff_mem, and_comm, or_comm,
    @Pack.mem_names (candidates.filter _)]
  simp only [List.mem_filter, hadded, and_assoc]

end Session

/-! ## Runs -/

/-- A property of sessions holds of every one that can be reached if a new selection has it and a
changed one keeps it. Of a session in which packs are resolved only the candidates count, and of one
in which a group is chosen nothing. -/
theorem Context.ReachableBy.keeps_selected {permitted : Session → Change → Prop} {c : Context}
    {P : Session → Prop}
    (opened : ∀ vars s, c.openSession vars = .ok s → P s)
    (registered : ∀ s pack validator, P s → P (s.addValidator pack validator))
    (toggled : ∀ s name on p selected, c.Reachable s → permitted s (.toggle name on) → P s →
      p ∈ s.candidates → (if on then s.selectionWith p else s.selectionWithout p) = .ok selected →
        (s.toggle name on).session = { s with selected } → P { s with selected })
    (resolved : ∀ s names packs, c.Reachable s →
      s.context.catalog.resolve s.candidates names = .ok packs →
        P { s with selected := .ofList (Pack.names packs) })
    (grouped : ∀ s name t, c.Reachable s → s.withInstallGroup name = .ok t → P t)
    (refreshed : ∀ s name value t, c.Reachable s → P s →
      (s.withVariable name value).refreshed = .ok t → P t)
    (failed : ∀ s name value, P s → P (s.withVariable name value))
    {s : Session} (h : c.ReachableBy permitted s) : P s := by
  induction h with
  | opened h => exact opened _ _ h
  | @changed s change hs hp ih =>
    have hstep := change.step s
    generalize hu : change.apply s = u at hstep
    cases hstep with
    | refused _ => exact ih
    | registered => exact registered s _ _ ih
    | toggled hcand hsel =>
      exact toggled s _ _ _ _ hs.reachable hp ih (Session.candidate_eq_ok hs.known hcand).1 hsel hu
    | @resolved _ t names packs _ ht hr =>
      have hreach : c.Reachable t := by
        rcases ht with rfl | ⟨name, ht⟩
        · exact hs.reachable
        · exact hs.reachable.withInstallGroup trivial ht
      exact resolved t names packs hreach hr
    | grouped ht => exact grouped s _ _ hs.reachable ht
    | refreshed ht => exact refreshed s _ _ _ hs.reachable ih ht
    | failed _ => exact failed s _ _ ih
  | refused _ h ih =>
    rw [Session.session_of_proceed_eq_error h]
    exact ih
  | @reopened s d hs h _ =>
    obtain ⟨hok, hsession⟩ := Session.proceed_eq_ok_iff.1 h
    rw [ClosedSession.reopen, hsession]
    exact resolved s _ _ hs.reachable (Session.resolution_eq_ok_iff.1 hok).1

end PackChoice
