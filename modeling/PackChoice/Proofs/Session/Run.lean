import PackChoice.Proofs.Loading
import PackChoice.Proofs.Session.Operations

/-!
Runs of a session: what a user can do with it between opening and closing, in any order, with any
arguments and whether it succeeds or not. `Change.step` tells what a change makes of a session and
where the selection comes from. Apart from the selection a change has one of five effects
(`Change.effect`): it leaves everything else as it is, it registers a validator, it chooses an
install group, it sets a variable and finds the candidates anew, or it sets a variable and fails.
A session has the validators that were registered on the way to it and no others
(`Context.Follows.validators_eq`).
-/

namespace PackChoice

/-! ## Changes -/

/-- What a user does to an open session. -/
inductive Change where
  | setVariable (name value : String)
  | selectInstallGroup (name : String)
  | toggle (name : String) (on : Bool)
  | select (names : List String)
  | replay (record : Record)
  | addValidator (pack : String) (validator : Validator)

/-- The session after a change, whether the change was made or refused. -/
def Change.apply (s : Session) : Change → Session
  | setVariable name value => (s.setVariable name value).session
  | selectInstallGroup name => (s.selectInstallGroup name).session
  | toggle name on => (s.toggle name on).session
  | select names => (s.select names).session
  | replay record => (record.replay s).outcome.session
  | addValidator pack validator => s.addValidator pack validator

/-- The validators that a change registers, each with the name of its pack. -/
def Change.registered : Change → List (String × Validator)
  | addValidator pack validator => [(pack, validator)]
  | _ => []

/-- If the change sets a variable then that succeeds. Any other change may be refused. -/
def Change.SetsWell (s : Session) : Change → Prop
  | setVariable name value => (s.setVariable name value).result = .ok ()
  | _ => True

namespace Context

/-- The sessions that can be reached with changes of a kind. A session may be closed and opened
again, and it may be given back because it could not be closed. -/
inductive ReachableBy (permitted : Session → Change → Prop) (c : Context) : Session → Prop where
  | opened {vars : Variables} {s : Session} :
      c.openSession vars = .ok s → ReachableBy permitted c s
  | changed {s : Session} {change : Change} :
      ReachableBy permitted c s → permitted s change → ReachableBy permitted c (change.apply s)
  | refused {s : Session} {r : Rejected} :
      ReachableBy permitted c s → s.proceed = .error r → ReachableBy permitted c r.session
  | reopened {s : Session} {d : ClosedSession} :
      ReachableBy permitted c s → s.proceed = .ok d → ReachableBy permitted c d.reopen

/-- The sessions that can be reached at all. -/
def Reachable (c : Context) : Session → Prop := c.ReachableBy fun _ _ => True

/-- A session can be reached with these changes in their order, made or refused. Between them it may
be closed and opened again. -/
inductive Follows (c : Context) : List Change → Session → Prop where
  | opened {vars : Variables} {s : Session} : c.openSession vars = .ok s → Follows c [] s
  | changed {changes : List Change} {s : Session} (change : Change) :
      Follows c changes s → Follows c (changes ++ [change]) (change.apply s)
  | refused {changes : List Change} {s : Session} {r : Rejected} :
      Follows c changes s → s.proceed = .error r → Follows c changes r.session
  | reopened {changes : List Change} {s : Session} {d : ClosedSession} :
      Follows c changes s → s.proceed = .ok d → Follows c changes d.reopen

end Context

/-! ## Effects of changes -/

namespace Record

variable {s : Session} {r : Record}

theorem chooseGroup_eq_ok {t : Session} (h : r.chooseGroup s = ⟨.ok (), t⟩) :
    r.installGroup = none ∧ t = s ∨
      ∃ name, r.installGroup = some name ∧ s.withInstallGroup name = .ok t := by
  unfold chooseGroup at h
  cases hg : r.installGroup with
  | none =>
    rw [hg] at h
    exact .inl ⟨rfl, (Outcome.mk.inj h).2.symm⟩
  | some name =>
    rw [hg] at h
    dsimp only at h
    exact .inr ⟨name, rfl, Session.selectInstallGroup_eq_ok_iff.1 h⟩

theorem replay_session (r : Record) (s : Session) :
    (r.replay s).outcome.session = s ∨
      ∃ t names packs, (t = s ∨ ∃ name, s.withInstallGroup name = .ok t) ∧
        t.context.catalog.resolve t.candidates names = .ok packs ∧
        (r.replay s).outcome.session = { t with selected := .ofList (Pack.names packs) } := by
  rcases r.replay_cases s with ⟨e, -, h⟩ | ⟨report, happ, h⟩
  · exact .inl (by rw [h])
  · obtain ⟨t, verdicts, packs, hc, -, hr, -, hu⟩ :=
      apply_eq_ok_iff.1 (show (r.apply s).outcome = ⟨.ok report, _⟩ by rw [← happ])
    refine .inr ⟨t, _, packs, ?_, hr, by rw [h, hu]⟩
    exact (chooseGroup_eq_ok hc).imp And.right fun ⟨name, _, ht⟩ => ⟨name, ht⟩

end Record

namespace Change

/-- What a change makes of a session, told with where its selection comes from. -/
inductive Step (s : Session) : Change → Session → Prop where
  /-- The change is refused. Registering a validator never is. -/
  | refused {change : Change} : change.registered = [] → Step s change s
  | registered {pack : String} {validator : Validator} :
      Step s (addValidator pack validator) (s.addValidator pack validator)
  | toggled {name : String} {on : Bool} {p : Pack} {selected : NameSet} :
      s.candidate name = .ok p →
        (if on then s.selectionWith p else s.selectionWithout p) = .ok selected →
          Step s (toggle name on) { s with selected }
  /-- Packs are resolved, by selecting them or by a replay, which may choose a group before. -/
  | resolved {change : Change} {t : Session} {names : List String} {packs : List Pack} :
      change.registered = [] → (t = s ∨ ∃ name, s.withInstallGroup name = .ok t) →
        t.context.catalog.resolve t.candidates names = .ok packs →
          Step s change { t with selected := .ofList (Pack.names packs) }
  | grouped {name : String} {t : Session} :
      s.withInstallGroup name = .ok t → Step s (selectInstallGroup name) t
  | refreshed {name value : String} {t : Session} :
      (s.withVariable name value).refreshed = .ok t → Step s (setVariable name value) t
  | failed {name value : String} {e : Error} :
      (s.setVariable name value).result = .error e →
        Step s (setVariable name value) (s.withVariable name value)

theorem step (s : Session) (change : Change) : Step s change (change.apply s) := by
  cases change with
  | setVariable name value =>
    rw [apply]
    rcases s.setVariable_cases name value with ⟨e, -, h⟩ | ⟨t, ht, h⟩ <;> rw [h]
    · exact .failed (congrArg Outcome.result h)
    · exact .refreshed ht
  | selectInstallGroup name =>
    rw [apply]
    rcases s.selectInstallGroup_cases name with ⟨e, -, h⟩ | ⟨t, ht, h⟩ <;> rw [h]
    · exact .refused rfl
    · exact .grouped ht
  | toggle name on =>
    rw [apply]
    rcases s.toggle_cases name on with ⟨e, h⟩ | ⟨p, selected, hp, hsel, h⟩ <;> rw [h]
    · exact .refused rfl
    · exact .toggled hp hsel
  | select names =>
    rw [apply]
    rcases s.select_cases names with ⟨e, -, h⟩ | ⟨packs, hr, h⟩ <;> rw [h]
    · exact .refused rfl
    · exact .resolved rfl (.inl rfl) hr
  | replay record =>
    rw [apply]
    rcases record.replay_session s with h | ⟨t, names, packs, ht, hr, h⟩ <;> rw [h]
    · exact .refused rfl
    · exact .resolved rfl ht hr
  | addValidator pack validator => exact .registered

theorem validators_of_edits {s t : Session} {change : Change} (hnone : change.registered = [])
    (h : s.Edits t) : t.validators = s.validators ++ change.registered := by
  rw [hnone, List.append_nil, h.validators_eq]

/-- Every change adds to the validators those that it registers and keeps the others. -/
theorem Step.validators_eq {s t : Session} {change : Change} (h : Step s change t) :
    t.validators = s.validators ++ change.registered := by
  cases h with
  | refused hnone => exact validators_of_edits hnone (.refl s)
  | registered => rfl
  | toggled _ _ => exact validators_of_edits rfl (s.edits_with_selected _)
  | @resolved _ u names packs hnone hu _ =>
    have hedits : s.Edits u := by
      rcases hu with rfl | ⟨name, hu⟩
      · exact .refl u
      · exact Session.withInstallGroup_edits hu
    exact validators_of_edits hnone (hedits.trans (u.edits_with_selected _))
  | grouped ht => exact validators_of_edits rfl (Session.withInstallGroup_edits ht)
  | refreshed ht =>
    exact validators_of_edits rfl ((s.withVariable_edits _ _).trans (Session.refreshed_edits ht))
  | failed _ => exact validators_of_edits rfl (s.withVariable_edits _ _)

/-- What a change can make of a session, apart from the selection. -/
inductive Effect (s : Session) : Change → Session → Prop where
  | kept {change : Change} (selected : NameSet) : Effect s change { s with selected }
  | registered {pack : String} {validator : Validator} :
      Effect s (addValidator pack validator) (s.addValidator pack validator)
  | grouped {change : Change} {name : String} {t : Session} (selected : NameSet) :
      s.withInstallGroup name = .ok t → Effect s change { t with selected }
  | refreshed {name value : String} {t : Session} :
      (s.withVariable name value).refreshed = .ok t → Effect s (setVariable name value) t
  | failed {name value : String} {e : Error} :
      (s.setVariable name value).result = .error e →
        Effect s (setVariable name value) (s.withVariable name value)

theorem effect (s : Session) (change : Change) : Effect s change (change.apply s) := by
  have hstep := change.step s
  generalize change.apply s = u at hstep
  cases hstep with
  | refused _ => exact .kept s.selected
  | registered => exact .registered
  | toggled _ _ => exact .kept _
  | resolved _ ht _ =>
    rcases ht with rfl | ⟨name, ht⟩
    · exact .kept _
    · exact .grouped _ ht
  | grouped ht => exact .grouped _ ht
  | refreshed ht => exact .refreshed ht
  | failed he => exact .failed he

end Change

/-! ## What runs keep -/

/-- A property of sessions that opening gives and all effects keep holds of every session that can
be reached. A failure to set a variable counts only where setting variables is permitted. -/
theorem Context.ReachableBy.keeps {permitted : Session → Change → Prop} {c : Context}
    {P : Session → Prop}
    (opened : ∀ vars s, c.openSession vars = .ok s → P s)
    (kept : ∀ s selected, P s → P { s with selected })
    (registered : ∀ s pack validator, P s → P (s.addValidator pack validator))
    (grouped : ∀ s name t, P s → s.withInstallGroup name = .ok t → P t)
    (refreshed : ∀ s name value t, P s → (s.withVariable name value).refreshed = .ok t → P t)
    (failed : ∀ s name value e, P s → permitted s (.setVariable name value) →
      (s.setVariable name value).result = .error e → P (s.withVariable name value))
    {s : Session} (h : c.ReachableBy permitted s) : P s := by
  induction h with
  | opened h => exact opened _ _ h
  | @changed s change _ hp ih =>
    have heffect := change.effect s
    generalize change.apply s = t at heffect
    cases heffect with
    | kept selected => exact kept s selected ih
    | registered => exact registered s _ _ ih
    | @grouped _ _ t selected ht => exact kept t selected (grouped s _ t ih ht)
    | refreshed ht => exact refreshed s _ _ _ ih ht
    | failed he => exact failed s _ _ _ ih hp he
  | refused _ h ih =>
    rw [Session.session_of_proceed_eq_error h]
    exact ih
  | @reopened s d _ h ih =>
    rw [ClosedSession.reopen, (Session.proceed_eq_ok_iff.1 h).2]
    exact kept s _ ih

/-- Whatever kind of changes was permitted, the session can be reached at all. -/
theorem Context.ReachableBy.reachable {permitted : Session → Change → Prop} {c : Context}
    {s : Session} (h : c.ReachableBy permitted s) : c.Reachable s := by
  induction h with
  | opened h => exact .opened h
  | changed _ _ ih => exact ih.changed trivial
  | refused _ h ih => exact ih.refused h
  | reopened _ h ih => exact ih.reopened h

theorem Context.ReachableBy.withInstallGroup {permitted : Session → Change → Prop} {c : Context}
    {s t : Session} {name : String} (h : c.ReachableBy permitted s)
    (hp : permitted s (.selectInstallGroup name)) (ht : s.withInstallGroup name = .ok t) :
    c.ReachableBy permitted t := by
  have hchosen := h.changed hp
  rwa [Change.apply, Session.selectInstallGroup_eq_ok_iff.2 ht] at hchosen

/-! ## Changes on the way -/

theorem Context.reachable_iff_follows {c : Context} {s : Session} :
    c.Reachable s ↔ ∃ changes, c.Follows changes s := by
  constructor
  · intro h
    induction h with
    | opened h => exact ⟨[], .opened h⟩
    | @changed _ change _ _ ih => exact ih.imp' (· ++ [change]) fun _ hf => hf.changed change
    | refused _ h ih => exact ih.imp fun _ hf => hf.refused h
    | reopened _ h ih => exact ih.imp fun _ hf => hf.reopened h
  · intro h
    obtain ⟨changes, h⟩ := h
    induction h with
    | opened h => exact .opened h
    | changed _ _ ih => exact ih.changed trivial
    | refused _ h ih => exact ih.refused h
    | reopened _ h ih => exact ih.reopened h

/-- The validators of a session are those registered on the way to it, in their order: no change, be
it made or refused, takes one away, and neither does closing. -/
theorem Context.Follows.validators_eq {c : Context} {changes : List Change} {s : Session}
    (h : c.Follows changes s) : s.validators = changes.flatMap Change.registered := by
  induction h with
  | opened h =>
    obtain ⟨candidates, -, h⟩ := bind_eq_ok_iff.1 h
    rw [← pure_eq_ok_iff.1 h]
    rfl
  | @changed changes s change _ ih =>
    rw [(change.step s).validators_eq, ih, List.flatMap_append, List.flatMap_singleton]
  | refused _ h ih =>
    rw [Session.session_of_proceed_eq_error h]
    exact ih
  | reopened _ h ih =>
    rw [ClosedSession.reopen, (Session.proceed_eq_ok_iff.1 h).2]
    exact ih

/-! ## Sessions of the small installers -/

theorem Context.sample_opens : (Context.sample.openSession ∅).toOption.isSome = true := by cbv

/-- A session of the small installer in which nothing has been done. -/
def Session.sample : Session := (Context.sample.openSession ∅).toOption.get Context.sample_opens

theorem Session.sample_reachable {permitted : Session → Change → Prop} :
    Context.sample.ReachableBy permitted Session.sample :=
  .opened (eq_ok_get Context.sample_opens)

theorem Context.palette_opens : (Context.palette.openSession ∅).toOption.isSome = true := by cbv

/-- A session of the installer of `Definition.palette` in which nothing has been done. -/
def Session.palette : Session := (Context.palette.openSession ∅).toOption.get Context.palette_opens

theorem Session.palette_reachable {permitted : Session → Change → Prop} :
    Context.palette.ReachableBy permitted Session.palette :=
  .opened (eq_ok_get Context.palette_opens)

end PackChoice
