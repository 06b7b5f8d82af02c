import PackChoice.Proofs.Session.Toggle

/-!
What is checked is what gets installed. A session is settled when its selection has just been
resolved, by selecting packs or by being closed. From there on any toggles, made or refused, leave
a coherent selection behind (`toggleAll_coherent`), and closing freezes just the packs that are
selected then (`Settled.proceed_toggled`), if no candidate depends on a pack that is not a candidate.
-/

namespace PackChoice

/-- The sessions that can be reached with a selection of packs that has succeeded, or with a session
being opened again, as the last step. -/
inductive Context.Settled (c : Context) : Session → Prop where
  | selected {s : Session} {names : List String} {packs : List Pack} :
      c.Reachable s → (s.select names).result = .ok packs → Settled c (s.select names).session
  | reopened {s : Session} {d : ClosedSession} :
      c.Reachable s → s.proceed = .ok d → Settled c d.reopen

namespace Session

variable {s : Session}

/-- The session after some toggles, each of which is made or refused. -/
def toggleAll (s : Session) (toggles : List (String × Bool)) : Session :=
  toggles.foldl (fun s t => (s.toggle t.1 t.2).session) s

theorem toggleAll_coherent (hc : s.Complete) (h : s.Coherent s.selected)
    (toggles : List (String × Bool)) :
    ∃ selected, s.toggleAll toggles = { s with selected } ∧ s.Coherent selected := by
  induction toggles generalizing s with
  | nil => exact ⟨s.selected, rfl, h⟩
  | cons t toggles ih =>
    have hnext := toggle_coherent hc h t.1 t.2
    obtain ⟨selected, ht⟩ : ∃ selected, (s.toggle t.1 t.2).session = { s with selected } := by
      rcases s.toggle_cases t.1 t.2 with ⟨e, ht⟩ | ⟨p, selected, -, -, ht⟩ <;> rw [ht]
      · exact ⟨s.selected, rfl⟩
      · exact ⟨selected, rfl⟩
    have hstep : s.toggleAll (t :: toggles) = ({ s with selected } : Session).toggleAll toggles := by
      rw [← ht]
      rfl
    rw [ht] at hnext
    obtain ⟨final, hf, hcoh⟩ :=
      ih (complete_with_selected hc) (coherent_with_selected_iff.2 hnext)
    rw [hstep]
    exact ⟨final, hf, coherent_with_selected_iff.1 hcoh⟩

theorem Coherent.proceed_ok (hc : s.Complete) (h : s.Coherent s.selected)
    (hv : s.validators = []) :
    ∃ d, s.proceed = .ok d ∧ ∀ name, name ∈ d.packNames ↔ name ∈ s.selected := by
  obtain ⟨packs, hr, hmem⟩ := h.resolve_ok hc
  exact ⟨_, proceed_of_resolve hr hv, hmem⟩

end Session

namespace Context.Settled

variable {c : Context} {s : Session}

theorem reachable (h : c.Settled s) : c.Reachable s := by
  cases h with
  | @selected s names packs hs _ =>
    show c.Reachable ((Change.select names).apply s)
    exact hs.changed trivial
  | reopened hs hd => exact hs.reopened hd

theorem coherent (h : c.Settled s) (hc : s.Complete) : s.Coherent s.selected := by
  cases h with
  | @selected s names packs hs hok =>
    rcases s.select_cases names with ⟨e, -, he⟩ | ⟨resolved, hr, hsel⟩
    · rw [he] at hok
      cases hok
    · rw [hsel] at hc ⊢
      exact Session.coherent_of_resolve hc hr
  | @reopened s d hs hd =>
    obtain ⟨hres, hsession⟩ := Session.proceed_eq_ok_iff.1 hd
    obtain ⟨hr, -⟩ := Session.resolution_eq_ok_iff.1 hres
    rw [ClosedSession.reopen, hsession] at hc ⊢
    exact Session.coherent_of_resolve hc hr

/-- Without validators, closing a settled session after any toggles freezes what is selected. -/
theorem proceed_toggled (h : c.Settled s)
    (hd : ∀ p ∈ s.candidates, ∀ name ∈ p.dependencies, name ∈ Pack.names s.candidates)
    (hv : s.validators = []) (toggles : List (String × Bool)) :
    ∃ d, (s.toggleAll toggles).proceed = .ok d ∧
      ∀ name, name ∈ d.packNames ↔ name ∈ (s.toggleAll toggles).selected := by
  obtain ⟨vars, hs⟩ := h.reachable.supplied
  have hc : s.Complete := ⟨fun p hp => hs.sublist.subset hp, hd⟩
  obtain ⟨selected, ht, hcoh⟩ := Session.toggleAll_coherent hc (h.coherent hc) toggles
  rw [ht]
  exact (Session.coherent_with_selected_iff.2 hcoh).proceed_ok (Session.complete_with_selected hc) hv

end Context.Settled

/-- Two toggles are made and one is refused, as `core` is required. -/
theorem Context.sample_proceed_toggled :
    ∃ s d, Context.sample.Settled s ∧ s.selected.toList = ["app", "core", "lib"] ∧
      (s.toggleAll [("app", false), ("core", false), ("lib", false)]).proceed = .ok d ∧
      ∀ name, name ∈ d.packNames ↔ name = "core" := by
  have hok : (Session.sample.select ["app"]).result.toOption.isSome = true := by cbv
  have hs : Context.sample.Settled (Session.sample.select ["app"]).session :=
    .selected Session.sample_reachable (eq_ok_get hok)
  have hd : ((Session.sample.select ["app"]).session.candidates.all fun p =>
      p.dependencies.all (Pack.names (Session.sample.select ["app"]).session.candidates).contains)
        = true := by cbv
  have hdeps : ∀ p ∈ (Session.sample.select ["app"]).session.candidates,
      ∀ name ∈ p.dependencies,
        name ∈ Pack.names (Session.sample.select ["app"]).session.candidates := by
    intro p hp name hname
    exact List.contains_iff_mem.1 (List.all_eq_true.1 (List.all_eq_true.1 hd p hp) name hname)
  have hv : (Session.sample.select ["app"]).session.validators = [] := by cbv
  have hsel : ((Session.sample.select ["app"]).session.toggleAll
      [("app", false), ("core", false), ("lib", false)]).selected.toList = ["core"] := by cbv
  obtain ⟨d, hp, hmem⟩ :=
    hs.proceed_toggled hdeps hv [("app", false), ("core", false), ("lib", false)]
  refine ⟨_, d, hs, by cbv, hp, fun name => ?_⟩
  rw [hmem, ← NameSet.mem_toList, hsel, List.mem_singleton]

end PackChoice
