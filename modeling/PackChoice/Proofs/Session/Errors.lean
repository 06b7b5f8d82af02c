import PackChoice.Proofs.Session.Candidates

/-!
What can still go wrong once a context has been made. Its rules can be evaluated whatever the
variables, so a session opens and the packs on offer can be told; after that setting a variable and
choosing an install group fail for other reasons than conditions (`Loaded.setVariable_eq_error`,
`Loaded.selectInstallGroup_eq_error`). `ofDefinition_settles_conditions` puts this together.
-/

namespace PackChoice.Context

variable {c : Context} {s : Session} {vars : Variables} {name value : String} {e : Error}

namespace Loaded

theorem openSession_ok (h : c.Loaded) (vars : Variables) : ∃ s, c.openSession vars = .ok s := by
  obtain ⟨available, ha⟩ := h.availablePacks_ok vars
  unfold openSession
  rw [ha]
  exact ⟨_, rfl⟩

theorem currentCandidates_eq_error (h : s.context.Loaded) (he : s.currentCandidates = .error e) :
    (∃ group, s.installGroup = some group) ∧ ∃ path, e = .cyclicDependency path := by
  obtain ⟨available, ha⟩ := h.availablePacks_ok s.vars
  cases hg : s.installGroup with
  | none =>
    rw [Session.currentCandidates_of_none hg, ha] at he
    cases he
  | some group =>
    refine ⟨⟨group, rfl⟩, ?_⟩
    cases hp : InstallGroups.partition s.context.catalog available s.vars with
    | error e' =>
      unfold Session.currentCandidates at he
      rw [ha, hg] at he
      simp only [bind, Except.bind, hp] at he
      obtain rfl := Except.error.inj he
      exact InstallGroups.partition_eq_error hp
    | ok groups =>
      rw [Session.currentCandidates_of_some hg ha hp] at he
      cases he

theorem setVariable_eq_error (h : s.context.Loaded)
    (he : (s.setVariable name value).result = .error e) :
    (∃ group, s.installGroup = some group) ∧ ∃ path, e = .cyclicDependency path := by
  rcases s.setVariable_cases name value with ⟨e', hr, hs⟩ | ⟨t, -, hs⟩
  · rw [hs] at he
    obtain rfl := Except.error.inj he
    rcases bind_eq_error_iff.1 hr with hr | ⟨candidates, -, hr⟩
    · exact currentCandidates_eq_error (s := s.withVariable name value) h hr
    · cases hr
  · rw [hs] at he
    cases he

theorem installGroups_eq_error (h : c.Loaded) (he : c.installGroups vars = .error e) :
    ∃ path, e = .cyclicDependency path := by
  obtain ⟨available, ha⟩ := h.availablePacks_ok vars
  unfold installGroups at he
  rw [ha] at he
  exact InstallGroups.partition_eq_error he

theorem selectInstallGroup_eq_error (h : s.context.Loaded)
    (he : (s.selectInstallGroup name).result = .error e) :
    e = .unknownInstallGroup name ∨ ∃ path, e = .cyclicDependency path := by
  rcases s.selectInstallGroup_cases name with ⟨e', hg, hs⟩ | ⟨t, -, hs⟩
  · rw [hs] at he
    obtain rfl := Except.error.inj he
    rcases bind_eq_error_iff.1 hg with hg | ⟨groups, -, hg⟩
    · exact .inr (h.installGroups_eq_error hg)
    · obtain ⟨available, ha⟩ :=
        h.availablePacks_ok (s.vars.insert InstallGroup.chosenVariable name)
      cases hget : groups.get? name with
      | none =>
        rw [hget] at hg
        exact .inl (Except.error.inj hg).symm
      | some group =>
        rw [hget, ha] at hg
        cases hg
  · rw [hs] at he
    cases he

end Loaded

/-- Making a context settles all errors of conditions, for any variables and at any later time. -/
theorem ofDefinition_settles_conditions {definition : Definition} {options : Options}
    (h : ofDefinition definition options = .ok c) :
    (∀ vars,
      (∀ p ∈ definition.packs, ∀ expression, p.condition = some expression →
        ∃ b, c.rules.evalExpression vars expression = .ok b) ∧
      (∃ packs, c.availablePacks vars = .ok packs ∧ packs.Sublist definition.packs ∧
        ∀ p, p ∈ packs ↔ p ∈ definition.packs ∧
          (p.required = true ∨ p.condition = none ∨
            ∃ expression, p.condition = some expression ∧
              c.rules.evalExpression vars expression = .ok true)) ∧
      (∃ s, c.openSession vars = .ok s) ∧
      ∃ unmet, c.rules.unmetRequirements vars = .ok unmet) ∧
    ∀ s, c.Reachable s →
      (∀ name value e, (s.setVariable name value).result = .error e →
        (∃ group, s.installGroup = some group) ∧ ∃ path, e = .cyclicDependency path) ∧
      ∀ name e, (s.selectInstallGroup name).result = .error e →
        e = .unknownInstallGroup name ∨ ∃ path, e = .cyclicDependency path := by
  obtain ⟨hl, hpacks⟩ := ofDefinition_eq_ok h
  rw [← hpacks]
  refine ⟨fun vars => ⟨?_, ?_, hl.openSession_ok vars, ?_⟩, fun s hs => ?_⟩
  · exact fun p hp expression he => hl.evalExpression_ok vars hp he
  · obtain ⟨packs, hp⟩ := hl.availablePacks_ok vars
    obtain ⟨hsub, hmem⟩ := availablePacks_eq_ok hp
    refine ⟨packs, hp, hsub, fun p => (hmem p).trans ?_⟩
    exact and_congr_right fun hpc => hl.offers_eq_true_iff vars hpc
  · exact Rules.unmetRequirements_ok_of_validate hl.valid vars
  · have hctx : s.context.Loaded := hs.context_eq ▸ hl
    exact ⟨fun _ _ _ he => hctx.setVariable_eq_error he,
      fun _ _ he => hctx.selectInstallGroup_eq_error he⟩

theorem sample_settles_conditions :
    Context.ofDefinition Definition.sample {} = .ok Context.sample ∧
      ∃ packs, Context.sample.availablePacks ∅ = .ok packs ∧ packs.Sublist Definition.sample.packs ∧
        Pack.names packs = ["core", "app", "lib"] := by
  refine ⟨ofDefinition_sample, ?_⟩
  obtain ⟨packs, hp, hsub, -⟩ := ((ofDefinition_settles_conditions ofDefinition_sample).1 ∅).2.1
  refine ⟨packs, hp, hsub, ?_⟩
  have hnames : (Context.sample.availablePacks ∅).toOption.map Pack.names =
      some ["core", "app", "lib"] := by cbv
  rw [hp] at hnames
  exact Option.some.inj hnames

end PackChoice.Context
