import PackChoice.CommandLine

/-!
The program: runs the command line on the files of the current directory.
-/

open PackChoice.CommandLine

/-- The cause of a failed file operation. Some operations negate the number of the cause. -/
def fileError : IO.Error → FileError
  | .noFileOrDirectory _ _ _ => .missing
  | .inappropriateType _ code _ =>
    if code = 21 || code = 0 - 21 then .isDirectory else .notDirectory
  | e@(.invalidArgument _ code _) =>
    if code = 36 || code = 0 - 36 then .nameTooLong else .other (toString e)
  | e => .other (toString e)

/-- The text of a file. -/
def readText (path : String) : IO (Except FileError String) := do
  try
    match String.fromUTF8? (← IO.FS.readBinFile path) with
    | some text => return .ok text
    | none => return .error .notText
  catch e => return .error (fileError e)

/-- The files that the arguments ask to read. -/
def gatherFiles (args : List String) : IO (List (String × Except FileError String)) := do
  match Arguments.parse args with
  | .error _ => return []
  | .ok a => (a.free.take 1 ++ a.values .replay).mapM fun path => return (path, ← readText path)

/-- Writes a text to a file, or tells why that failed. -/
def writeText (path text : String) : IO (Option FileError) := do
  try
    IO.FS.writeFile path text
    return none
  catch e => return some (fileError e)

/-- Runs the program and gives its exit code. -/
def main (args : List String) : IO UInt32 := do
  let files ← gatherFiles args
  let transcript := run args
    { read := fun path => (files.lookup path).getD (.error .missing)
      refusal? := fun _ => none }
  IO.print transcript.output
  for notice in transcript.notices do
    IO.eprintln notice.text
  match transcript.written with
  | none => return transcript.exitCode.toUInt32
  | some (path, text) =>
    match ← writeText path text with
    | none => return transcript.exitCode.toUInt32
    | some e =>
      IO.eprintln (Notice.error (Failure.file e).message).text
      return 1
