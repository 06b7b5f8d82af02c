import PackChoice.Document.Structure
import PackChoice.Json.Printer
import PackChoice.Session

/-!
Records of selections, by which an unattended installation can repeat a choice. A record lists
candidates with their positions and names and whether they were picked. Replaying a record
chooses its install group and then selects the packs that were picked, as far as they can be found
and are on offer; what becomes of each entry is its verdict.
-/

namespace PackChoice

namespace Record

/-- One pack of a record. -/
structure Entry where
  /-- The position in the catalog, which counts for more than the name. -/
  index : Option Nat := none
  name : Option String := none
  /-- Whether the pack was picked. -/
  selected : Bool := false
deriving DecidableEq, Repr

end Record

/-- A recorded selection. -/
structure Record where
  installGroup : Option String := none
  entries : List Record.Entry := []
deriving DecidableEq, Repr

namespace Record

/-- The record of a closed session, with an entry for every candidate. -/
def ofClosed (c : ClosedSession) : Record where
  installGroup := c.session.installGroup
  entries := c.session.candidates.map fun p =>
    { index := c.session.context.catalog.indexOf? p.name
      name := some p.name
      selected := c.packNames.contains p.name }

/-- The document that describes an entry. What is absent is left out. -/
def Entry.toJson (e : Entry) : Json :=
  .ofMembers
    ((e.index.toList.map fun n => ("index", .ofNat n))
      ++ (e.name.toList.map fun name => ("name", .string name))
      ++ [("selected", .bool e.selected)])

/-- The document that describes a record. What is absent is left out. -/
def toJson (r : Record) : Json :=
  .ofMembers
    ((r.installGroup.toList.map fun name => ("install_group", .string name))
      ++ [("packs", .array (r.entries.map Entry.toJson))])

/-- The text of a record. -/
def text (r : Record) : String := r.toJson.pretty

/-- Why an entry could not be matched to a pack that may be selected. -/
inductive Problem where
  | invalidIndex (index : Nat)
  | unknownName (name : String)
  | unnamed
  | unavailable (name : String)
deriving DecidableEq, Repr

/-- The text of a problem in a report. -/
def Problem.message : Problem → String
  | .invalidIndex index => "invalid pack index " ++ toString index
  | .unknownName name => "no pack named \"" ++ name ++ "\""
  | .unnamed => "entry has neither index nor name"
  | .unavailable name => "pack \"" ++ name ++ "\" is not available"

/-- The text of a problem when it is met, for those that are logged. -/
def Problem.logged? : Problem → Option String
  | .invalidIndex index =>
    some ("Invalid pack index " ++ toString index ++ " in automated selection")
  | .unknownName name => some ("Could not find selected pack named " ++ name)
  | .unnamed => none
  | .unavailable name => some ("Pack " ++ name ++ " can't be selected in this installation")

/-- What becomes of an entry that was picked. -/
inductive Verdict where
  | picked (name : String)
  /-- The pack is no longer on offer. -/
  | skipped (name : String)
  | problem (p : Problem)
deriving DecidableEq, Repr

/-- The pack that an entry stands for. -/
def Entry.find (e : Entry) (c : Catalog) : Except Problem Pack :=
  match e.index, e.name with
  | some index, _ =>
    match c.packs[index]? with
    | some p => .ok p
    | none => .error (.invalidIndex index)
  | none, some name =>
    match c.get? name with
    | some p => .ok p
    | none => .error (.unknownName name)
  | none, none => .error .unnamed

/-- The verdict on an entry that was picked. -/
def Entry.verdict (s : Session) (e : Entry) : Except Error Verdict :=
  match e.find s.context.catalog with
  | .error p => .ok (.problem p)
  | .ok p => do
    if ← s.context.offers s.vars p then
      if s.isCandidate p.name then return .picked p.name
      else return .problem (.unavailable p.name)
    else return .skipped p.name

/-- The verdicts on the entries before the first that has none, as its condition has no value. -/
def firstVerdicts (s : Session) : List Entry → List Verdict
  | [] => []
  | e :: entries =>
    match e.verdict s with
    | .error _ => []
    | .ok verdict => verdict :: firstVerdicts s entries

/-- The entries that were picked. -/
def picks (r : Record) : List Entry := r.entries.filter (·.selected)

/-- What came of replaying a record. -/
structure Report where
  /-- The selected packs, in the order of installation. -/
  selected : List String
  /-- The picked packs that are no longer on offer. -/
  skipped : List String
  problems : List Problem
deriving DecidableEq, Repr

/-- Whether every entry was matched to a pack. -/
def Report.isClean (r : Report) : Bool := r.problems.isEmpty

/-- The outcome of a replay, with the problems that were met before it ended. -/
structure Replay where
  outcome : Outcome Report
  met : List Problem

/-- The names of the packs that were picked and can be selected. -/
def pickedNames (verdicts : List Verdict) : List String :=
  verdicts.filterMap fun
    | .picked name => some name
    | _ => none

/-- The names of the packs that are no longer on offer. -/
def skippedNames (verdicts : List Verdict) : List String :=
  verdicts.filterMap fun
    | .skipped name => some name
    | _ => none

/-- The problems among the verdicts. -/
def problems (verdicts : List Verdict) : List Problem :=
  verdicts.filterMap fun
    | .problem p => some p
    | _ => none

/-- Chooses the install group of a record, if it has one. -/
def chooseGroup (r : Record) (s : Session) : Outcome Unit :=
  match r.installGroup with
  | some group => s.selectInstallGroup group
  | none => ⟨.ok (), s⟩

/-- Selects what was picked. The session after a failure is the one that the failing step left. -/
def apply (r : Record) (s : Session) : Replay :=
  let chosen := r.chooseGroup s
  match chosen.result with
  | .error e => ⟨⟨.error e, chosen.session⟩, []⟩
  | .ok () =>
    match r.picks.mapM (Entry.verdict chosen.session) with
    | .error e => ⟨⟨.error e, chosen.session⟩, problems (firstVerdicts chosen.session r.picks)⟩
    | .ok verdicts =>
      let selection := chosen.session.select (pickedNames verdicts)
      let result := selection.result.map fun packs =>
        { selected := Pack.names packs
          skipped := skippedNames verdicts
          problems := problems verdicts : Report }
      ⟨⟨result, selection.session⟩, problems verdicts⟩

/-- Replays a record. When a step fails what can be edited of the session is put back as it was
before the first. -/
def replay (r : Record) (s : Session) : Replay :=
  let kept := s.checkpoint
  let applied := r.apply s
  match applied.outcome.result with
  | .ok _ => applied
  | .error e => ⟨⟨.error e, applied.outcome.session.rollback kept⟩, applied.met⟩

end Record

end PackChoice
