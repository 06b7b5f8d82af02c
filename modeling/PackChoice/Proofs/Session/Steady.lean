import PackChoice.Proofs.Session.Errors

/-!
Sessions whose candidates can be had again. A session is steady when no variable has been set since
its install group was chosen (`Context.Steady`). Then its candidates are those that its group gives
under its variables, and choosing the group once more does not change them (`Session.Founded`). What
a group gives does not depend on anything else (`withInstallGroup_congr`), so any other session of
the context gets the same candidates by the same choice (`Founded.withInstallGroup_alike`).
-/

namespace PackChoice

namespace Session

variable {s t : Session} {name : String}

/-- The candidates are those that the install group in force gives under the variables, which name
this group, or all packs on offer where there is none. -/
def Founded (s : Session) : Prop :=
  match s.installGroup with
  | none => s.context.availablePacks s.vars = .ok s.candidates
  | some name => s.vars.get? InstallGroup.chosenVariable = some name ∧
      ∃ t, s.withInstallGroup name = .ok t ∧ t.candidates = s.candidates

theorem founded_of_none (hg : s.installGroup = none) :
    s.Founded ↔ s.context.availablePacks s.vars = .ok s.candidates := by
  unfold Founded
  rw [hg]

theorem founded_of_some (hg : s.installGroup = some name) :
    s.Founded ↔ s.vars.get? InstallGroup.chosenVariable = some name ∧
      ∃ t, s.withInstallGroup name = .ok t ∧ t.candidates = s.candidates := by
  unfold Founded
  rw [hg]

theorem founded_of_withInstallGroup (h : s.withInstallGroup name = .ok t) : t.Founded := by
  obtain ⟨available, groups, group, -, -, -, ht⟩ := withInstallGroup_eq_ok_iff.1 h
  have hc : t.context = s.context := by rw [ht, narrowed]
  have hg : t.installGroup = some name := by rw [ht, narrowed]
  have hv : t.vars = s.vars.insert InstallGroup.chosenVariable name := by rw [ht, narrowed]
  have hname : t.vars.get? InstallGroup.chosenVariable = some name := by
    rw [hv, NameMap.get?_insert, if_pos rfl]
  have hself := (NameMap.insert_eq_self_iff.2 hname).trans hv
  obtain ⟨available', packNames, ht', hagain⟩ := withInstallGroup_congr hc hself h
  exact (founded_of_some hg).2 ⟨hname, _, hagain, by rw [ht', narrowed, narrowed]⟩

theorem Founded.congr (h : s.Founded) (hc : t.context = s.context) (hv : t.vars = s.vars)
    (hg : t.installGroup = s.installGroup) (hcand : t.candidates = s.candidates) : t.Founded := by
  cases hs : s.installGroup with
  | none =>
    rw [founded_of_none (hg.trans hs), hc, hv, hcand]
    exact (founded_of_none hs).1 h
  | some name =>
    obtain ⟨hname, s', hs', hcand'⟩ := (founded_of_some hs).1 h
    obtain ⟨available, packNames, rfl, ht⟩ := withInstallGroup_congr hc (by rw [hv]) hs'
    rw [founded_of_some (hg.trans hs), hv, hcand]
    exact ⟨hname, _, ht, hcand'⟩

/-- Choosing the group of a session in another one, whose variables are the same but for the one
that names the group, gives the other one the candidates of the first. -/
theorem Founded.withInstallGroup_alike (hs : s.Founded) (hg : s.installGroup = some name)
    (hc : t.context = s.context)
    (hv : ∀ v, v ≠ InstallGroup.chosenVariable → t.vars.get? v = s.vars.get? v) :
    ∃ selected, t.withInstallGroup name =
      .ok { t with
        vars := s.vars
        candidates := s.candidates
        installGroup := some name
        selected } := by
  obtain ⟨hname, s', hs', hcand⟩ := (founded_of_some hg).1 hs
  have hself : s.vars.insert InstallGroup.chosenVariable name = s.vars :=
    NameMap.insert_eq_self_iff.2 hname
  have hvars : t.vars.insert InstallGroup.chosenVariable name =
      s.vars.insert InstallGroup.chosenVariable name := NameMap.insert_congr hv
  -- Both sessions now have the same variables, so the choice gives both the same candidates.
  obtain ⟨available, packNames, rfl, ht⟩ := withInstallGroup_congr hc hvars hs'
  refine ⟨(t.narrowed name available packNames).selected, ?_⟩
  rw [ht, ← hcand, ← hself, ← hvars]
  rfl

theorem Founded.offers (h : s.Founded) {p : Pack} (hp : p ∈ s.candidates) :
    p ∈ s.context.catalog.packs ∧ s.context.offers s.vars p = .ok true := by
  obtain ⟨available, ha, hpa⟩ : ∃ available,
      s.context.availablePacks s.vars = .ok available ∧ p ∈ available := by
    cases hg : s.installGroup with
    | none => exact ⟨s.candidates, (founded_of_none hg).1 h, hp⟩
    | some name =>
      obtain ⟨hname, t, ht, hcand⟩ := (founded_of_some hg).1 h
      obtain ⟨available, groups, group, ha, -, -, rfl⟩ := withInstallGroup_eq_ok_iff.1 ht
      rw [NameMap.insert_eq_self_iff.2 hname] at ha
      rw [← hcand] at hp
      exact ⟨available, ha, List.mem_of_mem_filter hp⟩
  exact ((Context.availablePacks_eq_ok ha).2 p).1 hpa

/-- Whether a record names the group of a session or, as that has none, names none: what it chooses
gives another session the candidates of the first. -/
theorem Founded.chooseGroup_alike {r : Record} (hs : s.Founded)
    (hr : r.installGroup = s.installGroup) (hc : t.context = s.context)
    (hv : ∀ v, s.installGroup = none ∨ v ≠ InstallGroup.chosenVariable →
      t.vars.get? v = s.vars.get? v)
    (ht : s.installGroup = none → t.installGroup = none ∧ t.Founded) :
    ∃ selected, r.chooseGroup t =
      ⟨.ok (), { t with
        vars := s.vars
        candidates := s.candidates
        installGroup := s.installGroup
        selected }⟩ := by
  cases hg : s.installGroup with
  | none =>
    obtain ⟨htg, htf⟩ := ht hg
    have hvars : t.vars = s.vars := NameMap.ext fun v => hv v (.inl hg)
    have hcand : t.candidates = s.candidates := by
      have hsc := (founded_of_none hg).1 hs
      have htc := (founded_of_none htg).1 htf
      rw [hc, hvars, hsc] at htc
      exact (Except.ok.inj htc).symm
    have hself :
        t = { t with vars := s.vars, candidates := s.candidates, installGroup := none } := by
      rw [← hvars, ← hcand, ← htg]
    refine ⟨t.selected, ?_⟩
    rw [Record.chooseGroup, hr, hg]
    exact congrArg (Outcome.mk (.ok ())) hself
  | some name =>
    obtain ⟨selected, hok⟩ := hs.withInstallGroup_alike hg hc fun v hne => hv v (.inr hne)
    refine ⟨selected, ?_⟩
    rw [Record.chooseGroup, hr, hg]
    exact selectInstallGroup_eq_ok_iff.2 hok

end Session

/-! ## Steady sessions -/

namespace Context

variable {c : Context} {s : Session}

/-- The sessions in which setting a variable has not been tried since the install group in force was
chosen. As long as there is none, variables may be set at any time. A choice may be a step of a
replay; a replay that fails leaves the earlier choice in force. -/
inductive Steady (c : Context) : Session → Prop where
  | ungrouped {s : Session} : c.Reachable s → s.installGroup = none → Steady c s
  | chosen {s t : Session} {name : String} :
      c.Reachable s → s.selectInstallGroup name = ⟨.ok (), t⟩ → Steady c t
  | replayed {s t : Session} {r : Record} {name : String} {report : Record.Report} :
      c.Reachable s → r.installGroup = some name → (r.replay s).outcome = ⟨.ok report, t⟩ →
        Steady c t
  | changed {s : Session} {change : Change} :
      Steady c s → (∀ name value, change ≠ .setVariable name value) → Steady c (change.apply s)
  | refused {s : Session} {r : Rejected} : Steady c s → s.proceed = .error r → Steady c r.session
  | reopened {s : Session} {d : ClosedSession} :
      Steady c s → s.proceed = .ok d → Steady c d.reopen

theorem Steady.reachable (h : c.Steady s) : c.Reachable s := by
  induction h with
  | ungrouped hs _ => exact hs
  | chosen hs ht => exact hs.withInstallGroup trivial (Session.selectInstallGroup_eq_ok_iff.1 ht)
  | @replayed s t r name report hs _ ht =>
    have hreach : c.Reachable ((Change.replay r).apply s) := hs.changed trivial
    rwa [Change.apply, ht] at hreach
  | changed _ _ ih => exact ih.changed trivial
  | refused _ h ih => exact ih.refused h
  | reopened _ h ih => exact ih.reopened h

/-- Without a group in force nothing can go wrong when a variable is set, so the candidates are what
the variables call for. -/
theorem Reachable.founded_of_none (hl : c.Loaded) (h : c.Reachable s)
    (hg : s.installGroup = none) : s.Founded := by
  have hkeeps : s.context = c ∧ (s.installGroup = none → s.Supplied s.vars) := by
    refine h.keeps (P := fun s => s.context = c ∧ (s.installGroup = none → s.Supplied s.vars))
      (fun vars s ho => ?_) (fun _ _ hs => hs) (fun _ _ _ hs => hs) (fun s name t hs ht => ?_)
      (fun s name value t hs ht => ?_) (fun s name value e hs _ he => ⟨hs.1, fun hn => ?_⟩)
    · obtain ⟨hc, hsupplied⟩ := Session.openSession_eq_ok ho
      exact ⟨hc, fun _ => hsupplied⟩
    · obtain ⟨hc, hsupplied⟩ := Session.withInstallGroup_eq_ok ht
      exact ⟨hc.trans hs.1, fun _ => hsupplied⟩
    · obtain ⟨hc, hsupplied⟩ := Session.refreshed_eq_ok ht
      exact ⟨hc.trans hs.1, fun _ => hsupplied⟩
    -- A failure would leave stale candidates behind, but there is none without a group in force.
    · obtain ⟨⟨group, hgroup⟩, -⟩ := Loaded.setVariable_eq_error (hs.1 ▸ hl) he
      have hnone : s.installGroup = none := hn
      rw [hgroup] at hnone
      cases hnone
  have hsupplied : s.currentCandidates = .ok s.candidates := hkeeps.2 hg
  rw [Session.founded_of_none hg, ← Session.currentCandidates_of_none hg, hsupplied]

/-- Whatever is done to a steady session, its candidates still follow from its group and its
variables. -/
theorem Steady.founded (hl : c.Loaded) (h : c.Steady s) : s.Founded := by
  induction h with
  | ungrouped hs hg => exact hs.founded_of_none hl hg
  | chosen _ ht =>
    exact Session.founded_of_withInstallGroup (Session.selectInstallGroup_eq_ok_iff.1 ht)
  | @replayed s t r name report _ hr ht =>
    obtain ⟨t', verdicts, packs, hc, -, -, -, rfl⟩ :=
      Record.apply_eq_ok_iff.1 (Record.replay_eq_ok_iff.1 ht)
    rcases Record.chooseGroup_eq_ok hc with ⟨hnone, -⟩ | ⟨group, -, hgroup⟩
    · rw [hr] at hnone
      cases hnone
    · exact (Session.founded_of_withInstallGroup hgroup).congr rfl rfl rfl rfl
  | @changed s change _ hne ih =>
    have heffect := change.effect s
    generalize change.apply s = t at heffect
    cases heffect with
    | kept selected => exact ih.congr rfl rfl rfl rfl
    | registered => exact ih.congr rfl rfl rfl rfl
    | grouped selected ht =>
      exact (Session.founded_of_withInstallGroup ht).congr rfl rfl rfl rfl
    | refreshed => exact absurd rfl (hne _ _)
    | failed => exact absurd rfl (hne _ _)
  | refused _ h ih =>
    rw [Session.session_of_proceed_eq_error h]
    exact ih
  | @reopened s d _ h ih =>
    rw [ClosedSession.reopen, (Session.proceed_eq_ok_iff.1 h).2]
    exact ih.congr rfl rfl rfl rfl

end Context

end PackChoice
