import PackChoice.Proofs.Session.Operations

/-!
Operations step by step. A procedure on a session looks at it and writes it field by field, and it
may end early with an error; what it has written by then stays. Toggling a pack, selecting packs and
choosing an install group look first and write last, so they leave the session as it was when they
end early (`clean_toggling`, `clean_selecting`, `clean_choosing`). Setting a variable writes before
it looks. A replay leaves written what its steps have written and puts it back when a later one
fails. What each procedure makes of a session is what the operation does (`toggle_eq_outcome` and
the like).
-/

namespace PackChoice

/-- A procedure that looks at a session and writes it, and that may end early. -/
abbrev Editing (α : Type) : Type := ExceptT Error (StateM Session) α

namespace Editing

variable {α β : Type} {edit : Editing α} {next : α → Editing β} {s t : Session}

/-- What a procedure makes of a session, whether it ends early or not. -/
def outcome (edit : Editing α) (s : Session) : Outcome α :=
  let (result, t) := (ExceptT.run edit).run s
  ⟨result, t⟩

/-! ## Steps -/

theorem run_of_outcome {result : Except Error α} (h : edit.outcome s = ⟨result, t⟩) :
    (ExceptT.run edit).run s = (result, t) := by
  obtain ⟨hresult, hsession⟩ := Outcome.mk.inj h
  exact Prod.ext hresult hsession

theorem outcome_bind_of_ok {a : α} (h : edit.outcome s = ⟨.ok a, t⟩) :
    (edit >>= next).outcome s = (next a).outcome t := by
  simp only [outcome, ExceptT.run_bind, StateT.run_bind, run_of_outcome h]
  rfl

theorem outcome_bind_of_error {e : Error} (h : edit.outcome s = ⟨.error e, t⟩) :
    (edit >>= next).outcome s = ⟨.error e, t⟩ := by
  simp only [outcome, ExceptT.run_bind, StateT.run_bind, run_of_outcome h]
  rfl

theorem outcome_tryCatch_of_ok {handle : Error → Editing α} {a : α}
    (h : edit.outcome s = ⟨.ok a, t⟩) : (tryCatch edit handle).outcome s = ⟨.ok a, t⟩ := by
  simp only [outcome, ExceptT.run_tryCatch, StateT.run_bind, run_of_outcome h]
  rfl

theorem outcome_tryCatch_of_error {handle : Error → Editing α} {e : Error}
    (h : edit.outcome s = ⟨.error e, t⟩) :
    (tryCatch edit handle).outcome s = (handle e).outcome t := by
  simp only [outcome, ExceptT.run_tryCatch, StateT.run_bind, run_of_outcome h]
  rfl

@[simp] theorem outcome_get_bind (next : Session → Editing β) (s : Session) :
    (get >>= next).outcome s = (next s).outcome s := outcome_bind_of_ok rfl

@[simp] theorem outcome_modify_bind (write : Session → Session) (next : Unit → Editing β)
    (s : Session) : (modify write >>= next).outcome s = (next ()).outcome (write s) :=
  outcome_bind_of_ok rfl

@[simp] theorem outcome_lift_bind (x : Except Error α) (next : α → Editing β) (s : Session) :
    ((liftM x : Editing α) >>= next).outcome s =
      match x with
      | .ok a => (next a).outcome s
      | .error e => ⟨.error e, s⟩ := by
  cases x with
  | ok a => rfl
  | error e => rfl

/-! ## Writing last -/

/-- A procedure writes nothing, whether it ends early or not. -/
def Looks (edit : Editing α) : Prop := ∀ s, (edit.outcome s).session = s

/-- A procedure that ends early has written nothing. -/
def Clean (edit : Editing α) : Prop :=
  ∀ s e, (edit.outcome s).result = .error e → (edit.outcome s).session = s

theorem looks_get : (get : Editing Session).Looks := fun _ => rfl

theorem looks_lift (x : Except Error α) : (liftM x : Editing α).Looks := fun _ => rfl

theorem looks_throw (e : Error) : (throw e : Editing α).Looks := fun _ => rfl

theorem Looks.clean (h : edit.Looks) : edit.Clean := fun s _ _ => h s

/-- Looking does no harm to what comes after it. -/
theorem Looks.clean_bind (h : edit.Looks) (hnext : ∀ a, (next a).Clean) :
    (edit >>= next).Clean := by
  intro s e he
  obtain ⟨⟨result, t⟩, hrun⟩ : ∃ o, edit.outcome s = o := ⟨_, rfl⟩
  obtain rfl : t = s := by rw [← h s, hrun]
  cases result with
  | error e' => rw [outcome_bind_of_error hrun]
  | ok a =>
    rw [outcome_bind_of_ok hrun] at he ⊢
    exact hnext a t e he

theorem Clean.session_eq {o : Outcome α} {e : Error} (h : edit.Clean) (ho : o = edit.outcome s)
    (he : o.result = .error e) : o.session = s := by
  rw [ho] at he ⊢
  exact h s e he

/-- A procedure that never ends early may write what it likes. -/
theorem clean_of_ok (h : ∀ s, ∃ a, (edit.outcome s).result = .ok a) : edit.Clean := by
  intro s e he
  obtain ⟨a, ha⟩ := h s
  rw [ha] at he
  cases he

end Editing

/-! ## Operations on sessions -/

namespace Session

open Editing

theorem attempt_bind {α β : Type} (s : Session) (x : Except Error α)
    (f : α → Except Error (β × Session)) :
    s.attempt (x >>= f) =
      match x with
      | .ok a => s.attempt (f a)
      | .error e => ⟨.error e, s⟩ := by
  cases x with
  | ok a => rfl
  | error e => rfl

theorem attempt_map_bind {α β : Type} (s : Session) (x : Except Error α) (f : α → Except Error β)
    (g : β → Unit × Session) :
    s.attempt ((x >>= f).map g) =
      match x with
      | .ok a => s.attempt ((f a).map g)
      | .error e => ⟨.error e, s⟩ := by
  cases x with
  | ok a => rfl
  | error e => rfl

/-- Toggles a pack. -/
def toggling (name : String) (on : Bool) : Editing Unit := do
  let s ← get
  let p ← s.candidate name
  if on then
    let catalog := s.context.catalog
    let closed := catalog.packsAt (← catalog.closure (catalog.indexesOf [p.name]))
    checkExclusions closed
    let selected ← (closed.foldlM s.withPack s.selected : Except Error NameSet)
    modify ({ · with selected })
  else if p.required then throw (.packRequired p.name)
  else
    match ← s.selectedDependents s.selected p.name with
    | [] => modify fun s => { s with selected := s.selected.erase p.name }
    | dependents => throw (.packNeeded p.name dependents)

theorem clean_toggling (name : String) (on : Bool) : (toggling name on).Clean := by
  refine looks_get.clean_bind fun s => (looks_lift _).clean_bind fun p => ?_
  -- What is to be selected is worked out on the side, so only the last step of each branch writes.
  split
  · refine (looks_lift _).clean_bind fun closed => (looks_lift _).clean_bind fun _ => ?_
    exact (looks_lift _).clean_bind fun selected => clean_of_ok fun s => ⟨(), rfl⟩
  · split
    · exact (looks_throw _).clean
    · refine (looks_lift _).clean_bind fun dependents => ?_
      split
      · exact clean_of_ok fun s => ⟨(), rfl⟩
      · exact (looks_throw _).clean

theorem toggle_eq_outcome (s : Session) (name : String) (on : Bool) :
    s.toggle name on = (toggling name on).outcome s := by
  simp only [toggle, toggling, attempt_bind, outcome_get_bind, outcome_lift_bind]
  cases s.candidate name with
  | error e => rfl
  | ok p =>
    cases on with
    | true =>
      simp only [selectionWith, if_true, attempt_bind, bind_assoc, outcome_lift_bind]
      rfl
    | false =>
      simp only [selectionWithout, Bool.false_eq_true, if_false]
      cases p.required with
      | true => rfl
      | false =>
        simp only [Bool.false_eq_true, if_false, attempt_bind, bind_assoc, outcome_lift_bind]
        cases s.selectedDependents s.selected p.name with
        | error e => rfl
        | ok dependents => cases dependents <;> rfl

/-- Makes the packs of a request the selection. -/
def selecting (names : List String) : Editing (List Pack) := do
  let s ← get
  let packs ← s.context.catalog.resolve s.candidates names
  modify ({ · with selected := .ofList (Pack.names packs) })
  return packs

theorem clean_selecting (names : List String) : (selecting names).Clean := by
  refine looks_get.clean_bind fun s => (looks_lift _).clean_bind fun packs => ?_
  exact clean_of_ok fun s => ⟨packs, rfl⟩

theorem select_eq_outcome (s : Session) (names : List String) :
    s.select names = (selecting names).outcome s := by
  simp only [select, selecting, attempt_bind, outcome_get_bind, outcome_lift_bind]
  cases s.context.catalog.resolve s.candidates names with
  | error e => rfl
  | ok packs => rfl

/-- Chooses an install group. -/
def choosing (name : String) : Editing Unit := do
  let s ← get
  let vars := s.vars.insert InstallGroup.chosenVariable name
  let groups ← s.context.installGroups vars
  let some group := groups.get? name | throw (.unknownInstallGroup name)
  let available ← s.context.availablePacks vars
  let candidates := available.filter fun p => group.packNames.contains p.name
  let eligible := candidates.filter fun p => s.options.selectAllInGroup || p.isInitial
  modify ({ · with vars })
  modify ({ · with installGroup := some name })
  modify ({ · with candidates })
  modify ({ · with selected := initialSelection eligible })

theorem clean_choosing (name : String) : (choosing name).Clean := by
  refine looks_get.clean_bind fun s => (looks_lift _).clean_bind fun groups => ?_
  split
  · refine (looks_lift _).clean_bind fun available => ?_
    exact clean_of_ok fun s => ⟨(), rfl⟩
  · exact (looks_throw _).clean

theorem selectInstallGroup_eq_outcome (s : Session) (name : String) :
    s.selectInstallGroup name = (choosing name).outcome s := by
  simp only [selectInstallGroup, withInstallGroup, choosing, attempt_map_bind, outcome_get_bind,
    outcome_lift_bind]
  cases s.context.installGroups (s.vars.insert InstallGroup.chosenVariable name) with
  | error e => rfl
  | ok groups =>
    dsimp only
    cases groups.get? name with
    | none => rfl
    | some group =>
      simp only [attempt_map_bind, outcome_lift_bind]
      rfl

/-- Finds the candidates anew. -/
def refreshing : Editing Unit := do
  let s ← get
  let candidates ← s.currentCandidates
  let added := candidates.filter fun p => !s.isCandidate p.name && p.isInitial
  modify fun s => { s with selected := s.selected.insertAll (Pack.names added) }
  modify fun s => { s with selected := s.selected.filter (Pack.names candidates).contains }
  modify ({ · with candidates })

/-- Sets a variable. What is written stays if the candidates cannot be found. -/
def setting (name value : String) : Editing Unit := do
  modify fun s => { s with vars := s.vars.insert name value }
  modify fun s => { s with options := s.options.applyVariables s.vars }
  refreshing

theorem setVariable_eq_outcome (s : Session) (name value : String) :
    s.setVariable name value = (setting name value).outcome s := by
  simp only [setVariable_eq, refreshed, setting, refreshing, attempt_map_bind, outcome_modify_bind,
    outcome_get_bind, outcome_lift_bind]
  rfl

end Session

/-! ## Replays -/

namespace Record

open Editing

/-- Selects what was picked. -/
def applying (r : Record) : Editing Report := do
  r.installGroup.forM Session.choosing
  let s ← get
  let verdicts ← (r.picks.mapM (Entry.verdict s) : Except Error (List Verdict))
  let packs ← Session.selecting (pickedNames verdicts)
  return ⟨Pack.names packs, skippedNames verdicts, problems verdicts⟩

theorem chooseGroup_eq_outcome (r : Record) (s : Session) :
    r.chooseGroup s = (r.installGroup.forM Session.choosing : Editing Unit).outcome s := by
  unfold chooseGroup
  cases r.installGroup with
  | none => rfl
  | some name => exact s.selectInstallGroup_eq_outcome name

theorem apply_eq_outcome (r : Record) (s : Session) :
    (r.apply s).outcome = r.applying.outcome s := by
  have hchoose := r.chooseGroup_eq_outcome s
  unfold apply applying
  generalize r.chooseGroup s = chosen at hchoose ⊢
  obtain ⟨result, t⟩ := chosen
  cases result with
  | error e => exact (outcome_bind_of_error hchoose.symm).symm
  | ok _ =>
    rw [outcome_bind_of_ok hchoose.symm]
    simp only [outcome_get_bind, outcome_lift_bind]
    cases r.picks.mapM (Entry.verdict t) with
    | error e => rfl
    | ok verdicts =>
      have hselect := t.select_eq_outcome (pickedNames verdicts)
      dsimp only
      generalize t.select (pickedNames verdicts) = selection at hselect ⊢
      obtain ⟨result, u⟩ := selection
      cases result with
      | error e => exact (outcome_bind_of_error hselect.symm).symm
      | ok packs =>
        rw [outcome_bind_of_ok hselect.symm]
        rfl

/-- Replays a record, and puts back what a step has written if a later one fails. -/
def replaying (r : Record) : Editing Report := do
  let s ← get
  try applying r
  catch e =>
    modify (·.rollback s.checkpoint)
    throw e

theorem replay_eq_outcome (r : Record) (s : Session) :
    (r.replay s).outcome = r.replaying.outcome s := by
  have happly := r.apply_eq_outcome s
  -- Where it fails, `t` is what the steps before have left, which the rollback undoes.
  simp only [replay, replaying, outcome_get_bind]
  generalize r.apply s = applied at happly ⊢
  obtain ⟨⟨result, t⟩, met⟩ := applied
  cases result with
  | error e =>
    rw [outcome_tryCatch_of_error happly.symm]
    rfl
  | ok report => exact (outcome_tryCatch_of_ok happly.symm).symm

end Record

end PackChoice
