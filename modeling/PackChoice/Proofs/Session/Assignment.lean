import PackChoice.Proofs.Session.Errors

/-!
What setting a variable leaves behind when it fails. The value, and the options that go with it, are
written before the candidates are found anew, and nothing takes them back. So a failure leaves the
session as it was just when the variable had the value already (`setVariable_failed`).
-/

namespace PackChoice

/-! ## Options that go with the variables -/

namespace Options

theorem applyVariables_congr (options : Options) {vars vars' : Variables}
    (h : vars.get? selectPacksVariable = vars'.get? selectPacksVariable) :
    options.applyVariables vars = options.applyVariables vars' := by
  unfold applyVariables
  rw [h]

theorem applyVariables_idem (options : Options) (vars : Variables) :
    (options.applyVariables vars).applyVariables vars = options.applyVariables vars := by
  unfold applyVariables
  cases h : vars.get? selectPacksVariable <;> rfl

theorem applyVariables_insert_chosen (options : Options) (vars : Variables) (group : String) :
    options.applyVariables (vars.insert InstallGroup.chosenVariable group) =
      options.applyVariables vars := by
  have hne : selectPacksVariable ≠ InstallGroup.chosenVariable := by decide
  refine options.applyVariables_congr ?_
  rw [NameMap.get?_insert, if_neg hne]

end Options

namespace Context

variable {permitted : Session → Change → Prop} {c : Context} {s : Session} {name value : String}
  {e : Error}

/-- Whatever was done to a session, its options are those that its variables call for. -/
theorem ReachableBy.applyVariables_options (h : c.ReachableBy permitted s) :
    s.options.applyVariables s.vars = s.options := by
  refine h.keeps (P := fun s => s.options.applyVariables s.vars = s.options)
    (fun vars s ho => ?_) (fun _ _ hs => hs) (fun _ _ _ hs => hs) (fun s name t hs ht => ?_)
    (fun s name value t _ ht => ?_) (fun s name value _ _ _ _ => ?_)
  · obtain ⟨available, -, ho⟩ := bind_eq_ok_iff.1 ho
    rw [← pure_eq_ok_iff.1 ho]
    exact Options.applyVariables_idem _ vars
  · obtain ⟨available, groups, group, -, -, -, rfl⟩ := Session.withInstallGroup_eq_ok_iff.1 ht
    exact (s.options.applyVariables_insert_chosen s.vars name).trans hs
  · obtain ⟨candidates, -, ht⟩ := bind_eq_ok_iff.1 ht
    rw [← pure_eq_ok_iff.1 ht]
    exact Options.applyVariables_idem _ _
  · exact Options.applyVariables_idem _ _

/-- Setting a variable that fails has already written the value and the options that go with it. It
leaves the session as it was only if the variable had the value before. -/
theorem Reachable.setVariable_failed (h : c.Reachable s)
    (he : (s.setVariable name value).result = .error e) :
    (s.setVariable name value).session =
        { s with
          vars := s.vars.insert name value
          options := s.options.applyVariables (s.vars.insert name value) } ∧
      ((s.setVariable name value).session = s ↔ s.vars.get? name = some value) := by
  have hsession : (s.setVariable name value).session = s.withVariable name value := by
    rcases s.setVariable_cases name value with ⟨e', -, hs⟩ | ⟨t, -, hs⟩
    · rw [hs]
    · rw [hs] at he
      cases he
  refine ⟨hsession, ?_⟩
  rw [hsession, ← NameMap.insert_eq_self_iff]
  constructor
  · exact congrArg Session.vars
  · intro hvars
    show { s with
        vars := s.vars.insert name value
        options := s.options.applyVariables (s.vars.insert name value) } = s
    rw [hvars, h.applyVariables_options]

end Context

/-! ## An installer with a hidden circle -/

/-- An installer in which `yin` and `yang` depend on each other. They are on offer to experts only. -/
def Definition.circular : Definition where
  packs := [
    { name := "app", installGroups := .ofList ["user"] },
    { name := "yin", dependencies := ["yang"], condition := some (.term "expert" false) },
    { name := "yang", dependencies := ["yin"], condition := some (.term "expert" false) }]
  conditions := .ofList [("expert", .variable "EXPERT" "yes")]

theorem Definition.circular_loads :
    (Context.ofDefinition Definition.circular {}).toOption.isSome = true := by cbv

/-- What is known about the installer of `Definition.circular`. -/
def Context.circular : Context :=
  (Context.ofDefinition Definition.circular {}).toOption.get Definition.circular_loads

theorem Context.circular_opens : (Context.circular.openSession ∅).toOption.isSome = true := by cbv

/-- A session of the installer of `Definition.circular` in which nothing has been done. -/
def Session.circular : Session :=
  (Context.circular.openSession ∅).toOption.get Context.circular_opens

/-- The session in which the only install group has been chosen. -/
def Session.circularUser : Session :=
  Session.circular.narrowed "user" Session.circular.candidates
    (.ofList (Pack.names Session.circular.candidates))

theorem Session.circular_withInstallGroup :
    Session.circular.withInstallGroup "user" = .ok Session.circularUser := by
  have ha : Session.circular.context.availablePacks
      (Session.circular.vars.insert InstallGroup.chosenVariable "user") =
        .ok Session.circular.candidates := by cbv
  have hm : InstallGroups.members Session.circular.context.catalog Session.circular.candidates
      "user" = .ok Session.circular.candidates := by cbv
  have ht : InstallGroups.tags Session.circular.candidates = .ofList ["user"] := by cbv
  exact Session.withInstallGroup_of_only ha ht hm

theorem Session.circularUser_reachable : Context.circular.Reachable Session.circularUser := by
  have hopen : Context.circular.Reachable Session.circular :=
    .opened (eq_ok_get Context.circular_opens)
  exact hopen.withInstallGroup trivial Session.circular_withInstallGroup

/-- The second attempt to set the variable to the same value changes nothing. -/
theorem Context.circular_setVariable_again : ∃ s e, Context.circular.Reachable s ∧
    (s.setVariable "EXPERT" "yes").result = .error e ∧
      (s.setVariable "EXPERT" "yes").session = s := by
  let expert := Change.setVariable "EXPERT" "yes"
  have hs : Context.circular.Reachable (expert.apply Session.circularUser) :=
    Session.circularUser_reachable.changed trivial
  have he : ((expert.apply Session.circularUser).setVariable "EXPERT" "yes").result =
      .error (.cyclicDependency ["yin", "yang", "yin"]) := by cbv
  have hvars : (expert.apply Session.circularUser).vars.get? "EXPERT" = some "yes" := by cbv
  exact ⟨_, _, hs, he, (hs.setVariable_failed he).2.2 hvars⟩

/-- The first attempt fails and leaves the value behind. -/
theorem Context.circular_setVariable_keeps_value : ∃ s e, Context.circular.Reachable s ∧
    (s.setVariable "EXPERT" "yes").result = .error e ∧ s.vars.get? "EXPERT" = none ∧
      (s.setVariable "EXPERT" "yes").session.vars.get? "EXPERT" = some "yes" ∧
      (s.setVariable "EXPERT" "yes").session ≠ s := by
  have he : (Session.circularUser.setVariable "EXPERT" "yes").result =
      .error (.cyclicDependency ["yin", "yang", "yin"]) := by cbv
  have hbefore : Session.circularUser.vars.get? "EXPERT" = none := by cbv
  have hafter : (Session.circularUser.setVariable "EXPERT" "yes").session.vars.get? "EXPERT" =
      some "yes" := by cbv
  refine ⟨_, _, Session.circularUser_reachable, he, hbefore, hafter, fun heq => ?_⟩
  rw [heq, hbefore] at hafter
  cases hafter

end PackChoice
