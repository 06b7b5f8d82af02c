import PackChoice.Context
import PackChoice.Resolution

/-!
Sessions, in which a user picks packs. An open session can be changed; a closed one holds the
packs to install in their order. An operation on an open session that may fail tells its result
and the session after it, so that what a failure leaves behind can be seen: `setVariable` keeps
the new value of the variable, every other operation leaves the session as it was.
-/

namespace PackChoice

/-- A further check of one pack of a resolved selection, given the variables, the pack and the
whole selection. -/
abbrev Validator : Type := Variables → Pack → List Pack → Bool

/-- A session that can be changed. -/
structure Session where
  context : Context
  options : Options
  vars : Variables
  /-- The packs that may be picked, in the order of the catalog. -/
  candidates : List Pack
  installGroup : Option String
  /-- The names of the packs picked and of those known to come with them. -/
  selected : NameSet
  /-- Validators with the name of the pack that they check. -/
  validators : List (String × Validator)

/-- A session whose selection is final. -/
structure ClosedSession where
  /-- The session, with the packs to install selected. -/
  session : Session
  /-- The packs to install, in order. -/
  packs : List Pack

/-- The result of an operation and the session after it. -/
structure Outcome (α : Type) where
  result : Except Error α
  session : Session

/-- A session that could not be closed. -/
structure Rejected where
  session : Session
  error : Error

/-- What can be edited of a session, kept to be put back when a change of several steps fails half
way. -/
structure Checkpoint where
  options : Options
  vars : Variables
  candidates : List Pack
  installGroup : Option String
  selected : NameSet

/-- A session with the given variables in which the initial packs are selected. -/
def Context.openSession (c : Context) (vars : Variables) : Except Error Session := do
  let candidates ← c.availablePacks vars
  return {
    context := c
    options := c.options.applyVariables vars
    vars
    candidates
    installGroup := none
    selected := .ofList (Pack.names (candidates.filter (·.isInitial)))
    validators := [] }

namespace Session

/-- The outcome of a change that leaves the session as it was when it fails. -/
def attempt {α : Type} (s : Session) (change : Except Error (α × Session)) : Outcome α :=
  match change with
  | .ok (a, changed) => ⟨.ok a, changed⟩
  | .error e => ⟨.error e, s⟩

/-- Whether the pack with a name is a candidate. -/
def isCandidate (s : Session) (name : String) : Bool := (Pack.names s.candidates).contains name

/-- The install groups among the packs on offer. -/
def installGroups (s : Session) : Except Error InstallGroups :=
  s.context.installGroups s.vars

/-- The packs on offer that belong to the chosen install group: those that the group holds while
it is on offer, or else those that are in it or in no group. -/
def currentCandidates (s : Session) : Except Error (List Pack) := do
  let available ← s.context.availablePacks s.vars
  match s.installGroup with
  | none => return available
  | some name =>
    let groups ← InstallGroups.partition s.context.catalog available s.vars
    match groups.get? name with
    | some group => return available.filter fun p => group.packNames.contains p.name
    | none => return packsInGroup name available

/-- The session with its candidates found anew. Initial packs that became candidates are selected
and packs that are no candidates are not. -/
def refreshed (s : Session) : Except Error Session := do
  let candidates ← s.currentCandidates
  let added := candidates.filter fun p => !s.isCandidate p.name && p.isInitial
  let names := Pack.names candidates
  return { s with
    candidates
    selected := (s.selected.insertAll (Pack.names added)).filter names.contains }

/-- Sets a variable and finds the candidates anew. -/
def setVariable (s : Session) (name value : String) : Outcome Unit :=
  let vars := s.vars.insert name value
  let s := { s with vars, options := s.options.applyVariables vars }
  s.attempt (s.refreshed.map fun t => ((), t))

/-- The pack of an exclude group that is selected with the group: the first initial one or, where
there is none, the first. -/
def preferred? (packs : List Pack) : Option Pack :=
  match packs.find? (·.isInitial) with
  | some p => some p
  | none => packs.head?

/-- The packs selected when an install group is chosen: of each exclude group one pack, and every
pack in no exclude group. -/
def initialSelection (eligible : List Pack) : NameSet :=
  let free := eligible.filter (·.excludeGroup == none)
  let picked := (excludeGroups eligible).toList.filterMap fun group =>
    preferred? (eligible.filter (·.excludeGroup = some group))
  .ofList (Pack.names (free ++ picked))

/-- The session with an install group chosen. -/
def withInstallGroup (s : Session) (name : String) : Except Error Session := do
  let vars := s.vars.insert InstallGroup.chosenVariable name
  let groups ← s.context.installGroups vars
  match groups.get? name with
  | none => .error (.unknownInstallGroup name)
  | some group =>
    let available ← s.context.availablePacks vars
    let candidates := available.filter fun p => group.packNames.contains p.name
    let eligible := candidates.filter fun p => s.options.selectAllInGroup || p.isInitial
    return { s with
      vars
      installGroup := some name
      candidates
      selected := initialSelection eligible }

/-- Chooses an install group. -/
def selectInstallGroup (s : Session) (name : String) : Outcome Unit :=
  s.attempt ((s.withInstallGroup name).map fun t => ((), t))

/-- What can be edited of the session, as it is now. -/
def checkpoint (s : Session) : Checkpoint where
  options := s.options
  vars := s.vars
  candidates := s.candidates
  installGroup := s.installGroup
  selected := s.selected

/-- The session with what can be edited put back as it was. -/
def rollback (s : Session) (kept : Checkpoint) : Session :=
  { s with
    options := kept.options
    vars := kept.vars
    candidates := kept.candidates
    installGroup := kept.installGroup
    selected := kept.selected }

/-- The pack with a name, which must be a candidate. -/
def candidate (s : Session) (name : String) : Except Error Pack :=
  match s.context.catalog.get? name with
  | none => .error (.unknownPack name none)
  | some p => if s.isCandidate name then .ok p else .error (.packUnavailable name)

/-- The names in a selection of the packs that need a pack. -/
def selectedDependents (s : Session) (selected : NameSet) (name : String) :
    Except Error (List String) := do
  let dependents ← s.context.catalog.dependents name
  return (Pack.names dependents).filter selected.contains

/-- The other candidates in the exclude group of a pack. -/
def siblings (s : Session) (p : Pack) : List Pack :=
  match p.excludeGroup with
  | none => []
  | some group => s.candidates.filter fun q => q.name ≠ p.name && q.excludeGroup = some group

/-- A selection without a pack that has to make way for another one. -/
def displace (s : Session) (selected : NameSet) (p : Pack) : Except Error NameSet :=
  if selected.contains p.name then
    if p.required then .error (.packRequired p.name)
    else do
      let rest := selected.erase p.name
      match ← s.selectedDependents rest p.name with
      | [] => return rest
      | dependents => .error (.packNeeded p.name dependents)
  else .ok selected

/-- A selection with one more pack, from which the other candidates of its exclude group are
taken. -/
def withPack (s : Session) (selected : NameSet) (p : Pack) : Except Error NameSet := do
  return (← (s.siblings p).foldlM s.displace selected).insert p.name

/-- The selection with a pack and everything it needs. -/
def selectionWith (s : Session) (p : Pack) : Except Error NameSet := do
  let catalog := s.context.catalog
  let closed := catalog.packsAt (← catalog.closure (catalog.indexesOf [p.name]))
  checkExclusions closed
  closed.foldlM s.withPack s.selected

/-- The selection without a pack. -/
def selectionWithout (s : Session) (p : Pack) : Except Error NameSet := do
  if p.required then .error (.packRequired p.name)
  else
    match ← s.selectedDependents s.selected p.name with
    | [] => return s.selected.erase p.name
    | dependents => .error (.packNeeded p.name dependents)

/-- Selects a pack or takes it out of the selection. -/
def toggle (s : Session) (name : String) (on : Bool) : Outcome Unit :=
  s.attempt do
    let p ← s.candidate name
    let selected ← if on then s.selectionWith p else s.selectionWithout p
    return ((), { s with selected })

/-- Makes the packs of a request the selection. -/
def select (s : Session) (names : List String) : Outcome (List Pack) :=
  s.attempt do
    let packs ← s.context.catalog.resolve s.candidates names
    return (packs, { s with selected := .ofList (Pack.names packs) })

/-- Has a pack checked before the session is closed. -/
def addValidator (s : Session) (pack : String) (validator : Validator) : Session :=
  { s with validators := s.validators ++ [(pack, validator)] }

/-- Whether all validators of a pack accept a selection. -/
def accepts (s : Session) (packs : List Pack) (p : Pack) : Bool :=
  s.validators.all fun v => v.1 != p.name || v.2 s.vars p packs

/-- The names of the selected candidates. -/
def requested (s : Session) : List String :=
  Pack.names (s.candidates.filter fun p => s.selected.contains p.name)

/-- The packs that the selection comes to, in order. -/
def resolution (s : Session) : Except Error (List Pack) := do
  let packs ← s.context.catalog.resolve s.candidates s.requested
  match packs.find? fun p => !s.accepts packs p with
  | some p => .error (.packRejected p.name)
  | none => return packs

/-- Closes the session, or gives it back with the reason why that is refused. -/
def proceed (s : Session) : Except Rejected ClosedSession :=
  match s.resolution with
  | .ok packs => .ok ⟨{ s with selected := .ofList (Pack.names packs) }, packs⟩
  | .error error => .error ⟨s, error⟩

end Session

namespace ClosedSession

/-- The names of the packs to install, in order. -/
def packNames (c : ClosedSession) : List String := Pack.names c.packs

/-- The total size of the packs to install. -/
def size (c : ClosedSession) : Size := Pack.totalSize c.packs

/-- Opens the session again, with the packs to install selected. -/
def reopen (c : ClosedSession) : Session := c.session

end ClosedSession

end PackChoice
