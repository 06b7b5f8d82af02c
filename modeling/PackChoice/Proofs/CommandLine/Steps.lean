import PackChoice.CommandLine
import PackChoice.Proofs.Sequencing

/-!
Steps of a run of the command line. A step that succeeds gives a value and leaves a transcript
(`Gives`), and each kind of step says how (`gives_bind_iff` and those behind it). So a run prepares
a session by opening it as the arguments say and choosing an install group where there are any
(`Prepares`); that may add messages but prints nothing.
-/

namespace PackChoice.CommandLine

variable {α β : Type} {a : Arguments} {path : String} {dir : Directory} {s s' : Session}
  {t t' : Transcript} {notices : List Notice}

/-! ## Steps that succeed -/

/-- What a step comes to, and the transcript after it. -/
def outcome (x : Step α) (t : Transcript) : Except Failure α × Transcript := x.run.run t

/-- A step succeeds with a value and leaves a transcript behind. -/
def Gives (x : Step α) (t : Transcript) (value : α) (t' : Transcript) : Prop :=
  outcome x t = (.ok value, t')

theorem outcome_bind (x : Step α) (f : α → Step β) (t : Transcript) :
    outcome (x >>= f) t = match outcome x t with
      | (.ok value, u) => outcome (f value) u
      | (.error e, u) => (.error e, u) := by
  unfold outcome
  rw [ExceptT.run_bind, StateT.run_bind]
  show (match x.run.run t with | (r, u) => _) = _
  rcases x.run.run t with ⟨e | value, u⟩ <;> rfl

theorem gives_bind_iff {x : Step α} {f : α → Step β} {b : β} :
    Gives (x >>= f) t b t' ↔ ∃ value u, Gives x t value u ∧ Gives (f value) u b t' := by
  unfold Gives
  rw [outcome_bind]
  rcases outcome x t with ⟨e | value, u⟩ <;> simp

@[simp] theorem gives_pure_iff {value b : α} : Gives (pure value) t b t' ↔ value = b ∧ t = t' := by
  show (Except.ok value, t) = (Except.ok b, t') ↔ _
  simp

@[simp] theorem not_gives_throw {e : Failure} {b : α} : ¬Gives (throw e) t b t' := by
  intro h
  cases h

@[simp] theorem gives_attempt_iff {result : Except Error α} {b : α} :
    Gives (attempt result) t b t' ↔ result = .ok b ∧ t = t' := by
  unfold attempt
  cases result <;> simp

@[simp] theorem gives_liftExcept_iff {result : Except Failure α} {b : α} :
    Gives (openSession.liftExcept result) t b t' ↔ result = .ok b ∧ t = t' := by
  unfold openSession.liftExcept
  cases result <;> simp

@[simp] theorem gives_print_iff {text : String} {u : Unit} :
    Gives (print text) t u t' ↔ { t with output := t.output ++ text } = t' := by
  show (Except.ok (), _) = (Except.ok u, t') ↔ _
  simp

@[simp] theorem gives_notify_iff {u : Unit} :
    Gives (notify notices) t u t' ↔ { t with notices := t.notices ++ notices } = t' := by
  show (Except.ok (), _) = (Except.ok u, t') ↔ _
  simp

/-! ## The session of a run -/

/-- A session is opened as the arguments say on the definition at a path. -/
inductive Opens (a : Arguments) (path : String) (dir : Directory) (s : Session) : Prop where
  | intro {unknownPolicy : UnknownPolicy} {text : String} {definition : Definition}
      {context : Context} {vars : Variables} :
    policy a = .ok unknownPolicy → dir.read path = .ok text →
      Definition.ofText (a.has .validate) text = .ok definition →
        Context.ofDefinition definition { unknownPolicy } = .ok context →
          context.vars.assignAll (a.values .define) = .ok vars →
            context.rules.unmetRequirements vars = .ok [] →
              context.openSession vars = .ok s → Opens a path dir s

/-- An install group is chosen as the arguments say, or the first one where they say nothing; the
messages tell which there are. -/
inductive Chooses (a : Arguments) (s : Session) : Session → List Notice → Prop where
  | whole {groups : InstallGroups} :
    s.installGroups = .ok groups → groups.default? s.vars = none → Chooses a s s []
  | group {groups : InstallGroups} {first : InstallGroup} {chosen : String} {s' : Session} :
    s.installGroups = .ok groups → groups.default? s.vars = some first →
      (a.value? .group).getD first.name = chosen → s.withInstallGroup chosen = .ok s' →
        Chooses a s s' (groups.sorted.map fun group => .line (groupLine chosen group))

/-- A session is opened and an install group chosen, as the arguments say. -/
def Prepares (a : Arguments) (path : String) (dir : Directory) (s : Session)
    (notices : List Notice) : Prop :=
  ∃ opened, Opens a path dir opened ∧ Chooses a opened s notices

theorem gives_openSession_iff :
    Gives (openSession a path dir) t s t' ↔ Opens a path dir s ∧ t = t' := by
  unfold openSession
  simp only [gives_bind_iff, gives_liftExcept_iff, gives_attempt_iff, mapError_eq_ok_iff]
  constructor
  · rintro ⟨_, _, ⟨hpolicy, rfl⟩, _, _, ⟨hread, rfl⟩, _, _, ⟨htext, rfl⟩, _, _, ⟨hcontext, rfl⟩,
      _, _, ⟨hvars, rfl⟩, unmet, _, ⟨hunmet, rfl⟩, h⟩
    split at h
    · next hempty =>
      rw [List.isEmpty_iff.1 hempty] at hunmet
      obtain ⟨hopen, rfl⟩ := gives_attempt_iff.1 h
      exact ⟨.intro hpolicy hread htext hcontext hvars hunmet hopen, rfl⟩
    · exact absurd h not_gives_throw
  · rintro ⟨⟨hpolicy, hread, htext, hcontext, hvars, hunmet, hopen⟩, rfl⟩
    exact ⟨_, _, ⟨hpolicy, rfl⟩, _, _, ⟨hread, rfl⟩, _, _, ⟨htext, rfl⟩, _, _, ⟨hcontext, rfl⟩,
      _, _, ⟨hvars, rfl⟩, _, _, ⟨hunmet, rfl⟩, gives_attempt_iff.2 ⟨hopen, rfl⟩⟩

theorem gives_chooseGroup_iff :
    Gives (chooseGroup a s) t s' t' ↔
      ∃ notices, Chooses a s s' notices ∧ { t with notices := t.notices ++ notices } = t' := by
  unfold chooseGroup
  simp only [gives_bind_iff, gives_attempt_iff]
  constructor
  · rintro ⟨groups, _, ⟨hgroups, rfl⟩, h⟩
    split at h
    · next hdefault =>
      obtain ⟨rfl, rfl⟩ := gives_pure_iff.1 h
      exact ⟨[], .whole hgroups hdefault, by rw [List.append_nil]⟩
    · next first hdefault =>
      obtain ⟨_, _, hnotify, h⟩ := gives_bind_iff.1 h
      obtain rfl := gives_notify_iff.1 hnotify
      obtain ⟨hchoose, rfl⟩ := gives_attempt_iff.1 h
      exact ⟨_, .group hgroups hdefault rfl hchoose, rfl⟩
  · rintro ⟨notices, h, rfl⟩
    cases h with
    | whole hgroups hdefault =>
      refine ⟨_, _, ⟨hgroups, rfl⟩, ?_⟩
      rw [hdefault]
      exact gives_pure_iff.2 ⟨rfl, by rw [List.append_nil]⟩
    | group hgroups hdefault hchosen hchoose =>
      subst hchosen
      refine ⟨_, _, ⟨hgroups, rfl⟩, ?_⟩
      rw [hdefault]
      exact gives_bind_iff.2 ⟨(), _, gives_notify_iff.2 rfl, gives_attempt_iff.2 ⟨hchoose, rfl⟩⟩

end PackChoice.CommandLine
