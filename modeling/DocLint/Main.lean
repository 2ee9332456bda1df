import DocLint.Command

/-!
# The program

The command line on the files, the streams and the clock of the system.
-/
namespace DocLint.Program

/-- What stands under a name in the file system. -/
def kind (name : String) : IO (Option FileKind) := do
  try
    let place ← IO.FS.realPath name
    if ← place.isDir then return some .directory
    return if ← place.pathExists then some .file else none
  catch _ => return none

/-- Reads a file of the file system. -/
def read (name : String) : IO (Except FileError (List UInt8)) := do
  if (← kind name) == some .directory then return .error .isDirectory
  try
    return .ok (← IO.FS.readBinFile name).toList
  catch
    | .noFileOrDirectory .. => return .error .notFound
    | .inappropriateType .. => return .error .notDirectory
    | e => return .error (.other (toString e))

/-- Reads a stream to its end. -/
partial def readAll (stream : IO.FS.Stream) (sofar : ByteArray) : IO ByteArray := do
  let chunk ← stream.read 65536
  if chunk.isEmpty then return sofar else readAll stream (sofar ++ chunk)

/-- The surroundings that the system gives. -/
def surroundings : IO (Surroundings IO) := do
  return {
    files := ⟨(← IO.currentDir).toString, kind, read⟩
    input := do return (← readAll (← IO.getStdin) .empty).toList
    clock := IO.monoMsNow
    onTerminal := ← (← IO.getStdout).isTty }

/-- The name under which a level is logged. -/
def levelName : LogLevel → String
  | .debug => "DEBUG"
  | .warning => "WARNING"
  | .error => "ERROR"

/-- Shows an outcome with its log. -/
def put (outcome : CommandOutcome) (log : List LogEntry) : IO Unit := do
  for entry in log do
    IO.eprintln s!"{levelName entry.level} {entry.messageWith Failure.summary}"
  IO.print outcome.output
  match outcome with
  | .helpless help => IO.eprint help
  | .crashed cause => IO.eprintln s!"Failed: {cause.message}"
  | _ => pure ()
  match outcome.complaint? with
  | some complaint => IO.eprintln s!"Error: {complaint}"
  | none => pure ()

end DocLint.Program

/-- Runs the program with the arguments of its command line. -/
def main (arguments : List String) : IO UInt32 := do
  let (outcome, log) ← DocLint.Command.run (← DocLint.Program.surroundings) arguments
  DocLint.Program.put outcome log
  return outcome.exitCode.toUInt32
