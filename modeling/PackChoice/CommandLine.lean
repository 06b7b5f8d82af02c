import PackChoice.CommandLine.Arguments
import PackChoice.Document.Text
import PackChoice.Record.Reader

/-!
The command line as a function. `run` takes the arguments and what can be seen of the directory,
and tells what is printed, what is written and how the program ends. The definition is read and
checked first; then the install group is chosen, and the packs are listed, or selected and shown.
-/

namespace PackChoice.CommandLine

/-- Why a file cannot be read or written. -/
inductive FileError where
  | missing
  /-- A part of the path that should be a directory is a file. -/
  | notDirectory
  | isDirectory
  /-- The path or a part of it is too long. -/
  | nameTooLong
  /-- The file does not hold text. -/
  | notText
  /-- Any other cause, in the words of the system. -/
  | other (text : String)
deriving DecidableEq

/-- The text of a file error. -/
def FileError.message : FileError → String
  | .missing => "IO error: No such file or directory (os error 2)"
  | .notDirectory => "IO error: Not a directory (os error 20)"
  | .isDirectory => "IO error: Is a directory (os error 21)"
  | .nameTooLong => "IO error: File name too long (os error 36)"
  | .notText => "IO error: stream did not contain valid UTF-8"
  | .other text => "IO error: " ++ text

/-- What the command line sees of the directory it runs in. -/
structure Directory where
  /-- The text of the file at a path. -/
  read : String → Except FileError String
  /-- Why no file can be written at a path, where that is so. -/
  refusal? : String → Option FileError

/-- A message beside the output. -/
inductive Notice where
  | usage
  | line (text : String)
  | error (text : String)

/-- What a run has come to. -/
structure Transcript where
  output : String := ""
  /-- The messages beside the output, in order. -/
  notices : List Notice := []
  /-- The name and the text of the file written, if one is. -/
  written : Option (String × String) := none
  exitCode : Nat := 0

/-- Why a run fails. -/
inductive Failure where
  | library (e : Error)
  /-- The definition cannot be read. -/
  | definition (e : FileError)
  /-- Another file cannot be read or written. -/
  | file (e : FileError)
  | conflictingOptions
  /-- The messages of the requirements that are not met. -/
  | requirementsNotMet (messages : List String)
  | rejected (e : Error)

/-- The text of a failure. -/
def Failure.message : Failure → String
  | .library e => "packsel-rs error: " ++ e.message
  | .definition e => "packsel-rs error: " ++ e.message
  | .file e => e.message
  | .conflictingOptions => "--strict and --lenient can't be used together"
  | .requirementsNotMet messages =>
    "installer requirements not met: " ++ "; ".intercalate messages
  | .rejected e => "selection rejected: " ++ e.message

/-- The steps of a run: each may fail and adds to the transcript. -/
abbrev Step : Type → Type := ExceptT Failure (StateM Transcript)

/-- Adds to the output. -/
def print (text : String) : Step Unit := modify fun t => { t with output := t.output ++ text }

/-- Adds messages beside the output. -/
def notify (notices : List Notice) : Step Unit :=
  modify fun t => { t with notices := t.notices ++ notices }

/-- A step of the library. -/
def attempt {α : Type} (result : Except Error α) : Step α :=
  match result with
  | .ok a => return a
  | .error e => throw (.library e)

/-- The policy that the options ask for. -/
def policy (a : Arguments) : Except Failure UnknownPolicy :=
  match a.has .strict, a.has .lenient with
  | true, true => .error .conflictingOptions
  | _, true => .ok .assumeFalse
  | _, false => .ok .fail

/-- Opens the session: reads the definition, sets the variables and checks the requirements. -/
def openSession (a : Arguments) (path : String) (dir : Directory) : Step Session := do
  let policy ← liftExcept (policy a)
  let text ← liftExcept ((dir.read path).mapError .definition)
  let definition ← attempt (Definition.ofText (a.has .validate) text)
  let context ← attempt (Context.ofDefinition definition { unknownPolicy := policy })
  let vars ← attempt (context.vars.assignAll (a.values .define))
  let unmet ← attempt (context.rules.unmetRequirements vars)
  if unmet.isEmpty then attempt (context.openSession vars)
  else throw (.requirementsNotMet (unmet.map (·.message)))
where
  /-- A result as a step. -/
  liftExcept {α : Type} (result : Except Failure α) : Step α :=
    match result with
    | .ok a => return a
    | .error e => throw e

/-- The line that shows an install group, with a mark in front of the chosen one. -/
def groupLine (chosen : String) (group : InstallGroup) : String :=
  (if group.name = chosen then "* " else "  ") ++ group.name ++ " - " ++ group.description ++ " ("
    ++ sizeText group.size ++ ")"

/-- Shows the install groups, if there are any, and chooses one. -/
def chooseGroup (a : Arguments) (s : Session) : Step Session := do
  let groups ← attempt s.installGroups
  match groups.default? s.vars with
  | none => return s
  | some first =>
    let chosen := (a.value? .group).getD first.name
    notify (groups.sorted.map fun group => .line (groupLine chosen group))
    attempt (s.withInstallGroup chosen)

/-- A pack in the list of candidates. -/
structure Listed where
  pack : Pack
  /-- Whether the pack is shown below its parent. -/
  isChild : Bool

/-- The list of candidates: those without a parent, each followed by the packs below it. -/
def listing (s : Session) : List Listed :=
  (visiblePacks s.candidates |>.filter (·.parent == none)).flatMap fun p =>
    let children := (visiblePacks (s.context.catalog.children p.name)).filter fun child =>
      s.isCandidate child.name
    ⟨p, false⟩ :: children.map fun child => ⟨child, true⟩

/-- The line that shows a candidate. -/
def Listed.line (s : Session) (l : Listed) : String :=
  (if l.isChild then "\t" else "") ++ (if s.selected.contains l.pack.name then "[x] " else "[ ] ")
    ++ l.pack.name ++ (if l.pack.required then " (required)" else "") ++ " - "
    ++ l.pack.description ++ "\n"

/-- Replays the record in a file. -/
def replayFile (path : String) (dir : Directory) (s : Session) : Step Session := do
  match dir.read path with
  | .error e => throw (.file e)
  | .ok text =>
    let record ← attempt (Record.ofText text)
    let replay := record.replay s
    notify ((replay.met.filterMap Record.Problem.logged?).map .error)
    let report ← attempt replay.outcome.result
    notify (report.skipped.map fun name =>
      .line ("Skipped " ++ name ++ ", its condition isn't met"))
    return replay.outcome.session

/-- Selects the requested packs, if any are requested. -/
def selectRequested (requested : List String) (s : Session) : Step Session := do
  if requested.isEmpty then return s
  else
    let selection := s.select requested
    let _ ← attempt selection.result
    return selection.session

/-- The lines that show the packs to install. -/
def installText (packs : List Pack) : String :=
  "Packs to install:\n"
    ++ String.join (packs.map fun p =>
      "\t" ++ p.name ++ (if p.loose then " (loose)" else "")
        ++ " " ++ toString p.size ++ " bytes\n")
    ++ "Total: " ++ toString (Pack.totalSize packs) ++ " bytes\n"

/-- Writes the record of a closed session. -/
def writeRecord (path : String) (dir : Directory) (c : ClosedSession) : Step Unit := do
  match dir.refusal? path with
  | some e => throw (.file e)
  | none => modify fun t => { t with written := some (path, (Record.ofClosed c).text) }

/-- Closes the session and shows the packs to install. -/
def finish (a : Arguments) (dir : Directory) (s : Session) : Step Unit := do
  match s.proceed with
  | .error rejected => throw (.rejected rejected.error)
  | .ok closed =>
    if a.has .json then print ((Json.ofStrings closed.packNames).pretty ++ "\n")
    else print (installText closed.packs)
    match a.value? .record with
    | some path => writeRecord path dir closed
    | none => return ()

/-- A run on a definition. -/
def install (a : Arguments) (path : String) (requested : List String) (dir : Directory) :
    Step Unit := do
  let s ← openSession a path dir
  let s ← chooseGroup a s
  if a.has .list then
    print (String.join ((listing s).map (Listed.line s)))
  else
    let s ← match a.value? .replay with
      | some file => replayFile file dir s
      | none => selectRequested requested s
    finish a dir s

/-- A run of the command line. -/
def run (args : List String) (dir : Directory) : Transcript :=
  match Arguments.parse args with
  | .error e => { output := "Unable to parse options: " ++ e.message ++ "\n" }
  | .ok a =>
    match a.has .help, a.free with
    | true, _ => { notices := [.usage] }
    | false, [] => { notices := [.usage] }
    | false, path :: requested =>
      match (install a path requested dir).run.run {} with
      | (.ok (), t) => t
      | (.error e, t) => { t with notices := t.notices ++ [.error e.message], exitCode := 1 }

/-- The help text. -/
def usageText : String :=
  let line (o : Opt) : String :=
    let short := match o.short? with
      | some c => String.ofList ['-', c, ',', ' ']
      | none => "    "
    let value := match o.value? with
      | some v => " " ++ v
      | none => ""
    "    " ++ short ++ "--" ++ o.long ++ value ++ "\n            " ++ o.summary
  "\n".intercalate
    ("Usage: packsel-rs-terminal [options] DEFINITION [PACK...]" :: "" :: "Options:"
      :: Opt.all.map line)

/-- The text of a message. The lines of an error behind its first are indented. -/
def Notice.text : Notice → String
  | .usage => usageText
  | .line text => text
  | .error text =>
    "ERROR " ++ String.ofList (text.toList.flatMap fun c =>
      if c = '\n' then ['\n', ' ', ' ', ' ', ' '] else [c])

end PackChoice.CommandLine
