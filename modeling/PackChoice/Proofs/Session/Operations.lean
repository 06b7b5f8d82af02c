import PackChoice.Proofs.Sequencing
import PackChoice.Record

/-!
What each operation makes of a session: it fails and leaves the session behind as it was, or it
succeeds with a session that is told. Setting a variable alone leaves something else behind when it
fails (`setVariable_cases`). A replay goes through several steps and puts the session back when one
of them fails; that undoes all of them because no step alters what a checkpoint leaves out
(`apply_edits`, `replay_cases`).
-/

namespace PackChoice

namespace Session

variable {s t u : Session} {name value : String}

theorem isCandidate_iff : s.isCandidate name = true ↔ name ∈ Pack.names s.candidates :=
  List.contains_iff_mem

/-! ## Changes -/

theorem attempt_cases {α : Type} (s : Session) (change : Except Error (α × Session)) :
    (∃ e, change = .error e ∧ s.attempt change = ⟨.error e, s⟩) ∨
      ∃ a t, change = .ok (a, t) ∧ s.attempt change = ⟨.ok a, t⟩ := by
  cases change with
  | error e => exact .inl ⟨e, rfl, rfl⟩
  | ok made => exact .inr ⟨made.1, made.2, rfl, rfl⟩

/-- The session with a variable set, before the candidates are found anew. -/
def withVariable (s : Session) (name value : String) : Session :=
  let vars := s.vars.insert name value
  { s with vars, options := s.options.applyVariables vars }

theorem setVariable_eq (s : Session) (name value : String) :
    s.setVariable name value =
      (s.withVariable name value).attempt
        ((s.withVariable name value).refreshed.map fun t => ((), t)) := rfl

theorem setVariable_cases (s : Session) (name value : String) :
    (∃ e, (s.withVariable name value).refreshed = .error e ∧
        s.setVariable name value = ⟨.error e, s.withVariable name value⟩) ∨
      ∃ t, (s.withVariable name value).refreshed = .ok t ∧
        s.setVariable name value = ⟨.ok (), t⟩ := by
  rw [setVariable_eq]
  cases (s.withVariable name value).refreshed with
  | error e => exact .inl ⟨e, rfl, rfl⟩
  | ok t => exact .inr ⟨t, rfl, rfl⟩

theorem setVariable_eq_ok_iff :
    s.setVariable name value = ⟨.ok (), t⟩ ↔ (s.withVariable name value).refreshed = .ok t := by
  rcases s.setVariable_cases name value with ⟨e, hr, h⟩ | ⟨u, hr, h⟩
  · simp [h, hr]
  · simp [h, hr]

theorem selectInstallGroup_cases (s : Session) (name : String) :
    (∃ e, s.withInstallGroup name = .error e ∧ s.selectInstallGroup name = ⟨.error e, s⟩) ∨
      ∃ t, s.withInstallGroup name = .ok t ∧ s.selectInstallGroup name = ⟨.ok (), t⟩ := by
  rw [selectInstallGroup]
  cases s.withInstallGroup name with
  | error e => exact .inl ⟨e, rfl, rfl⟩
  | ok t => exact .inr ⟨t, rfl, rfl⟩

theorem selectInstallGroup_eq_ok_iff :
    s.selectInstallGroup name = ⟨.ok (), t⟩ ↔ s.withInstallGroup name = .ok t := by
  unfold selectInstallGroup
  cases s.withInstallGroup name with
  | error e => simp [attempt, Except.map]
  | ok u => simp [attempt, Except.map]

/-- The session with an install group chosen, given the packs on offer then and the names that the
group holds. -/
def narrowed (s : Session) (name : String) (available : List Pack) (packNames : NameSet) :
    Session :=
  let candidates := available.filter fun p => packNames.contains p.name
  let eligible := candidates.filter fun p => s.options.selectAllInGroup || p.isInitial
  { s with
    vars := s.vars.insert InstallGroup.chosenVariable name
    installGroup := some name
    candidates
    selected := initialSelection eligible }

theorem withInstallGroup_eq_ok_iff :
    s.withInstallGroup name = .ok t ↔
      ∃ available groups group,
        s.context.availablePacks (s.vars.insert InstallGroup.chosenVariable name) = .ok available ∧
          InstallGroups.partition s.context.catalog available
            (s.vars.insert InstallGroup.chosenVariable name) = .ok groups ∧
          groups.get? name = some group ∧ t = s.narrowed name available group.packNames := by
  constructor
  · intro h
    obtain ⟨groups, hgroups, h⟩ := bind_eq_ok_iff.1 h
    obtain ⟨available, ha, hp⟩ := bind_eq_ok_iff.1 hgroups
    cases hg : groups.get? name with
    | none =>
      rw [hg] at h
      cases h
    | some group =>
      rw [hg, ha] at h
      exact ⟨available, groups, group, ha, hp, hg, (Except.ok.inj h).symm⟩
  · rintro ⟨available, groups, group, ha, hp, hg, rfl⟩
    refine bind_eq_ok_iff.2 ⟨groups, bind_eq_ok_iff.2 ⟨available, ha, hp⟩, ?_⟩
    rw [hg, ha]
    rfl

/-- What the choice of an install group gives is told by the context and the variables alone, apart
from what is selected, for which the options count. -/
theorem withInstallGroup_congr (hc : t.context = s.context)
    (hv : t.vars.insert InstallGroup.chosenVariable name =
      s.vars.insert InstallGroup.chosenVariable name)
    (h : s.withInstallGroup name = .ok u) :
    ∃ available packNames, u = s.narrowed name available packNames ∧
      t.withInstallGroup name = .ok (t.narrowed name available packNames) := by
  obtain ⟨available, groups, group, ha, hp, hg, rfl⟩ := withInstallGroup_eq_ok_iff.1 h
  rw [← hc, ← hv] at ha hp
  exact ⟨available, group.packNames, rfl,
    withInstallGroup_eq_ok_iff.2 ⟨available, groups, group, ha, hp, hg, rfl⟩⟩

theorem toggle_cases (s : Session) (name : String) (on : Bool) :
    (∃ e, s.toggle name on = ⟨.error e, s⟩) ∨
      ∃ p selected, s.candidate name = .ok p ∧
        (if on then s.selectionWith p else s.selectionWithout p) = .ok selected ∧
          s.toggle name on = ⟨.ok (), { s with selected }⟩ := by
  rcases s.attempt_cases _ with ⟨e, -, h⟩ | ⟨u, t, ht, h⟩
  · exact .inl ⟨e, h⟩
  · obtain ⟨p, hp, ht⟩ := bind_eq_ok_iff.1 ht
    cases on with
    | true =>
      obtain ⟨selected, hsel, ht⟩ := bind_eq_ok_iff.1 ht
      obtain ⟨rfl, rfl⟩ := Prod.mk.inj (pure_eq_ok_iff.1 ht)
      exact .inr ⟨p, selected, hp, hsel, h⟩
    | false =>
      obtain ⟨selected, hsel, ht⟩ := bind_eq_ok_iff.1 ht
      obtain ⟨rfl, rfl⟩ := Prod.mk.inj (pure_eq_ok_iff.1 ht)
      exact .inr ⟨p, selected, hp, hsel, h⟩

theorem select_cases (s : Session) (names : List String) :
    (∃ e, s.context.catalog.resolve s.candidates names = .error e ∧
        s.select names = ⟨.error e, s⟩) ∨
      ∃ packs, s.context.catalog.resolve s.candidates names = .ok packs ∧
        s.select names = ⟨.ok packs, { s with selected := .ofList (Pack.names packs) }⟩ := by
  rw [select]
  cases s.context.catalog.resolve s.candidates names with
  | error e => exact .inl ⟨e, rfl, rfl⟩
  | ok packs => exact .inr ⟨packs, rfl, rfl⟩

/-! ## Closing -/

theorem proceed_eq_ok_iff {d : ClosedSession} :
    s.proceed = .ok d ↔
      s.resolution = .ok d.packs ∧
        d.session = { s with selected := .ofList (Pack.names d.packs) } := by
  rw [proceed]
  cases s.resolution with
  | error e => simp
  | ok packs =>
    obtain ⟨session, packs'⟩ := d
    simp only [Except.ok.injEq, ClosedSession.mk.injEq]
    grind

theorem session_of_proceed_eq_error {r : Rejected} (h : s.proceed = .error r) : r.session = s := by
  rw [proceed] at h
  cases hr : s.resolution with
  | error e =>
    rw [hr] at h
    rw [← Except.error.inj h]
  | ok packs =>
    rw [hr] at h
    cases h

/-! ## Putting a session back -/

/-- A session differs from another one in nothing but what can be edited. -/
def Edits (s t : Session) : Prop := ∃ kept, t = s.rollback kept

theorem Edits.refl (s : Session) : s.Edits s := ⟨s.checkpoint, rfl⟩

theorem Edits.trans (h : s.Edits t) (h' : t.Edits u) : s.Edits u := by
  obtain ⟨kept, rfl⟩ := h
  obtain ⟨kept', rfl⟩ := h'
  exact ⟨kept', rfl⟩

/-- A checkpoint holds all that an edited session has to be given back. -/
theorem Edits.rollback_checkpoint (h : s.Edits t) : t.rollback s.checkpoint = s := by
  obtain ⟨kept, rfl⟩ := h
  rfl

theorem Edits.validators_eq (h : s.Edits t) : t.validators = s.validators := by
  obtain ⟨kept, rfl⟩ := h
  rfl

theorem edits_with_selected (s : Session) (selected : NameSet) :
    s.Edits { s with selected } :=
  ⟨{ s.checkpoint with selected }, rfl⟩

theorem withVariable_edits (s : Session) (name value : String) :
    s.Edits (s.withVariable name value) :=
  ⟨(s.withVariable name value).checkpoint, rfl⟩

theorem refreshed_edits (h : s.refreshed = .ok t) : s.Edits t := by
  obtain ⟨candidates, -, h⟩ := bind_eq_ok_iff.1 h
  rw [← pure_eq_ok_iff.1 h]
  exact ⟨{ s.checkpoint with candidates, selected := _ }, rfl⟩

theorem withInstallGroup_edits (h : s.withInstallGroup name = .ok t) : s.Edits t := by
  obtain ⟨available, groups, group, -, -, -, rfl⟩ := withInstallGroup_eq_ok_iff.1 h
  exact ⟨⟨s.options, _, _, _, _⟩, rfl⟩

theorem selectInstallGroup_edits (s : Session) (name : String) :
    s.Edits (s.selectInstallGroup name).session := by
  rcases s.selectInstallGroup_cases name with ⟨e, -, h⟩ | ⟨t, ht, h⟩ <;> rw [h]
  · exact .refl s
  · exact withInstallGroup_edits ht

theorem select_edits (s : Session) (names : List String) : s.Edits (s.select names).session := by
  rcases s.select_cases names with ⟨e, -, h⟩ | ⟨packs, -, h⟩ <;> rw [h]
  · exact .refl s
  · exact s.edits_with_selected _

end Session

/-! ## Replays -/

namespace Record

variable {s t u : Session} {r : Record} {report : Report}

theorem chooseGroup_edits (r : Record) (s : Session) : s.Edits (r.chooseGroup s).session := by
  unfold chooseGroup
  cases r.installGroup with
  | none => exact .refl s
  | some name => exact s.selectInstallGroup_edits name

/-- However far a replay comes, what it leaves behind has only been edited. -/
theorem apply_edits (r : Record) (s : Session) : s.Edits (r.apply s).outcome.session := by
  have hchosen := r.chooseGroup_edits s
  unfold apply
  generalize r.chooseGroup s = chosen at hchosen ⊢
  obtain ⟨result, t⟩ := chosen
  cases result with
  | error e => exact hchosen
  | ok _ =>
    dsimp only
    cases r.picks.mapM (Entry.verdict t) with
    | error e => exact hchosen
    | ok verdicts => exact hchosen.trans (t.select_edits _)

theorem replay_cases (r : Record) (s : Session) :
    (∃ e, (r.apply s).outcome.result = .error e ∧ (r.replay s).outcome = ⟨.error e, s⟩) ∨
      ∃ report, (r.apply s).outcome.result = .ok report ∧ r.replay s = r.apply s := by
  have hedits := r.apply_edits s
  unfold replay
  generalize r.apply s = applied at hedits ⊢
  obtain ⟨⟨result, t⟩, met⟩ := applied
  cases result with
  | error e => exact .inl ⟨e, rfl, congrArg (Outcome.mk _) hedits.rollback_checkpoint⟩
  | ok report => exact .inr ⟨report, rfl, rfl⟩

theorem apply_eq_ok_iff :
    (r.apply s).outcome = ⟨.ok report, u⟩ ↔
      ∃ t verdicts packs, r.chooseGroup s = ⟨.ok (), t⟩ ∧
        r.picks.mapM (Entry.verdict t) = .ok verdicts ∧
        t.context.catalog.resolve t.candidates (pickedNames verdicts) = .ok packs ∧
        report = ⟨Pack.names packs, skippedNames verdicts, problems verdicts⟩ ∧
        u = { t with selected := .ofList (Pack.names packs) } := by
  unfold apply
  obtain ⟨result, t⟩ := r.chooseGroup s
  cases result with
  | error e => simp
  | ok _ =>
    dsimp only
    cases hv : r.picks.mapM (Entry.verdict t) with
    | error e => simp [hv]
    | ok verdicts =>
      rcases t.select_cases (pickedNames verdicts) with ⟨e, hr, hs⟩ | ⟨packs, hr, hs⟩
      · simp [hv, hs, hr, Except.map]
      · simp [hv, hs, hr, Except.map, eq_comm]

theorem replay_eq_ok_iff :
    (r.replay s).outcome = ⟨.ok report, u⟩ ↔ (r.apply s).outcome = ⟨.ok report, u⟩ := by
  rcases r.replay_cases s with ⟨e, he, h⟩ | ⟨report', -, h⟩
  · rw [h]
    refine ⟨fun ho => (nomatch ho), fun ho => ?_⟩
    rw [ho] at he
    cases he
  · rw [h]

end Record

end PackChoice
