import PackChoice.Proofs.Session.Frozen

/-!
Resolving what has been resolved already. Without validators, closing a session right after packs
have been selected freezes just the packs of that selection, and a closed session that is opened and
closed again freezes the same packs (`proceed_of_selected`). Their order may change at first: only
candidates are asked for again, and in the order of the catalog. It cannot change twice, because
what is handed on to the next round is a set (`reopen_congr`), so from the second closing on a
session comes back as it is (`resolution_stable`).
-/

namespace PackChoice

/-- The closed session after it has been opened and closed again a number of times. -/
def ClosedSession.reclosed (d : ClosedSession) : Nat → Except Rejected ClosedSession
  | 0 => .ok d
  | n + 1 => do (← d.reclosed n).reopen.proceed

theorem ClosedSession.reclosed_of_proceed {d : ClosedSession} (h : d.reopen.proceed = .ok d)
    (n : Nat) : d.reclosed n = .ok d := by
  induction n with
  | zero => rfl
  | succ n ih =>
    rw [reclosed, ih]
    exact h

namespace Session

variable {s : Session} {d e : ClosedSession} {names : List String} {packs : List Pack}

/-- Closing a session whose selection has just been resolved freezes the packs of the resolution. -/
theorem proceed_of_selected (hc : ∀ p ∈ s.candidates, p ∈ s.context.catalog.packs)
    (h : s.context.catalog.resolve s.candidates names = .ok packs)
    (hs : ∀ name, name ∈ s.selected ↔ name ∈ Pack.names packs) (hv : s.validators = []) :
    ∃ d, s.proceed = .ok d ∧ ∀ p, p ∈ d.packs ↔ p ∈ packs := by
  have hknown := Catalog.mem_of_resolve hc h
  have hrequested : ∀ p, p ∈ s.candidates.filter (fun p => s.selected.contains p.name) ↔
      p ∈ s.candidates ∧ p ∈ packs := by
    intro p
    rw [List.mem_filter, NameSet.contains_eq_true, hs]
    exact and_congr_right fun hp => Catalog.name_mem_names_iff hknown (hc p hp)
  obtain ⟨packs', hr, hmem⟩ := Catalog.resolve_again hc h hrequested
  exact ⟨_, proceed_of_resolve hr hv, hmem⟩

theorem select_proceed (hc : ∀ p ∈ s.candidates, p ∈ s.context.catalog.packs)
    (hv : s.validators = []) (h : (s.select names).result = .ok packs) :
    ∃ d, (s.select names).session.proceed = .ok d ∧ ∀ p, p ∈ d.packs ↔ p ∈ packs := by
  rcases s.select_cases names with ⟨e, -, hs⟩ | ⟨resolved, hr, hs⟩
  · rw [hs] at h
    cases h
  · rw [hs] at h ⊢
    obtain rfl := Except.ok.inj h
    exact proceed_of_selected (s := { s with selected := _ }) hc hr (fun _ => NameSet.mem_ofList) hv

theorem reopen_proceed (hc : ∀ p ∈ s.candidates, p ∈ s.context.catalog.packs)
    (hv : s.validators = []) (hd : s.proceed = .ok d) :
    ∃ e, d.reopen.proceed = .ok e ∧ ∀ p, p ∈ e.packs ↔ p ∈ d.packs := by
  obtain ⟨hres, hsession⟩ := proceed_eq_ok_iff.1 hd
  obtain ⟨hr, -⟩ := resolution_eq_ok_iff.1 hres
  rw [ClosedSession.reopen, hsession]
  exact proceed_of_selected (s := { s with selected := _ }) hc hr (fun _ => NameSet.mem_ofList) hv

/-- A closed session that froze the same packs as before, in whatever order, is opened again as
before. -/
theorem reopen_congr (hd : s.proceed = .ok d) (he : d.reopen.proceed = .ok e)
    (hsame : ∀ p, p ∈ e.packs ↔ p ∈ d.packs) : e.reopen = d.reopen := by
  have hset : NameSet.ofList (Pack.names e.packs) = .ofList (Pack.names d.packs) := by
    refine NameSet.ext fun name => ?_
    rw [NameSet.mem_ofList, NameSet.mem_ofList, Pack.mem_names, Pack.mem_names]
    simp only [hsame]
  have hdsession := (proceed_eq_ok_iff.1 hd).2
  have hesession := (proceed_eq_ok_iff.1 he).2
  rw [hset] at hesession
  rw [ClosedSession.reopen, hesession, ClosedSession.reopen, hdsession]

end Session

/-- Without validators, closing freezes what has just been selected, opening and closing again
freezes the same packs, and from then on also in the same order. -/
theorem Context.Reachable.resolution_stable {c : Context} {s : Session} (h : c.Reachable s)
    (hv : s.validators = []) :
    (∀ names packs, (s.select names).result = .ok packs →
      ∃ d, (s.select names).session.proceed = .ok d ∧ ∀ p, p ∈ d.packs ↔ p ∈ packs) ∧
    ∀ d, s.proceed = .ok d →
      ∃ e, d.reopen.proceed = .ok e ∧ (∀ p, p ∈ e.packs ↔ p ∈ d.packs) ∧
        ∀ n, e.reclosed n = .ok e := by
  have hc := h.known
  refine ⟨fun names packs hsel => Session.select_proceed hc hv hsel, fun d hd => ?_⟩
  obtain ⟨e, he, hsame⟩ := Session.reopen_proceed hc hv hd
  refine ⟨e, he, hsame, ClosedSession.reclosed_of_proceed ?_⟩
  rw [Session.reopen_congr hd he hsame]
  exact he

/-! ## An installer in which the order changes -/

/-- An installer of three packs. `core` needs `shell`, which comes first in the catalog but is not
selected at the start. -/
def Definition.workshop : Definition where
  packs := [
    { name := "shell", preselected := false },
    { name := "ui" },
    { name := "core", dependencies := ["shell"] }]

theorem Definition.workshop_loads :
    (Context.ofDefinition Definition.workshop {}).toOption.isSome = true := by cbv

/-- What is known about the installer of `Definition.workshop`. -/
def Context.workshop : Context :=
  (Context.ofDefinition Definition.workshop {}).toOption.get Definition.workshop_loads

theorem Context.workshop_opens : (Context.workshop.openSession ∅).toOption.isSome = true := by cbv

/-- A session of the installer of `Definition.workshop` in which nothing has been done. -/
def Session.workshop : Session :=
  (Context.workshop.openSession ∅).toOption.get Context.workshop_opens

/-- At first `shell` comes just before `core`, which needs it. Once it is selected itself it comes
before `ui`. -/
theorem Context.workshop_resolution_stable : ∃ s packs f d e, Context.workshop.Reachable s ∧
    s.validators = [] ∧ (s.select ["ui", "core"]).result = .ok packs ∧
      Pack.names packs = ["ui", "shell", "core"] ∧
      (s.select ["ui", "core"]).session.proceed = .ok f ∧
      f.packNames = ["shell", "ui", "core"] ∧ (∀ p, p ∈ f.packs ↔ p ∈ packs) ∧
      s.proceed = .ok d ∧ d.packNames = ["ui", "shell", "core"] ∧
      d.reopen.proceed = .ok e ∧ e.packNames = ["shell", "ui", "core"] ∧
      (∀ p, p ∈ e.packs ↔ p ∈ d.packs) ∧ ∀ n, e.reclosed n = .ok e := by
  obtain ⟨s, packs, d, hs, hv, hsel, hpacks, hf, hd, hdnames, he⟩ : ∃ s packs d,
      Context.workshop.Reachable s ∧ s.validators = [] ∧
        (s.select ["ui", "core"]).result = .ok packs ∧
        Pack.names packs = ["ui", "shell", "core"] ∧
        (s.select ["ui", "core"]).session.resolution.toOption.map Pack.names =
          some ["shell", "ui", "core"] ∧
        s.proceed = .ok d ∧ d.packNames = ["ui", "shell", "core"] ∧
        d.reopen.resolution.toOption.map Pack.names = some ["shell", "ui", "core"] := by
    have hopen : Context.workshop.Reachable Session.workshop :=
      .opened (eq_ok_get Context.workshop_opens)
    have hselect : (Session.workshop.select ["ui", "core"]).result.toOption.isSome = true := by
      cbv
    have hproceed : Session.workshop.proceed.toOption.isSome = true := by cbv
    exact ⟨_, _, _, hopen, by cbv, eq_ok_get hselect, by cbv, by cbv, eq_ok_get hproceed, by cbv,
      by cbv⟩
  obtain ⟨hselected, hreopened⟩ := hs.resolution_stable hv
  obtain ⟨f, hfp, hfsame⟩ := hselected _ _ hsel
  obtain ⟨e, hep, hesame, hefixed⟩ := hreopened d hd
  rw [(Session.proceed_eq_ok_iff.1 hfp).1] at hf
  rw [(Session.proceed_eq_ok_iff.1 hep).1] at he
  exact ⟨s, packs, f, d, e, hs, hv, hsel, hpacks, hfp, Option.some.inj hf, hfsame, hd, hdnames, hep,
    Option.some.inj he, hesame, hefixed⟩

end PackChoice
