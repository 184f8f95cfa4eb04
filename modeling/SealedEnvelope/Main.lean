import SealedEnvelope.CommandLine
import SealedEnvelope.CommandLine.Usage
import Std.Time.DateTime.Timestamp

set_option autoImplicit false

/-! # The program

Reads the arguments and the files they name, carries the invocation out, and makes on disk the
changes that have come of it. Everything else is decided elsewhere. -/

namespace SealedEnvelope.CommandLine

/-- The files that a command names. -/
def Command.paths : Command → List String
  | encrypt request => [request.input, request.output]
  | decrypt request => [request.input, request.output]
  | _ => []

/-- The files that an invocation names. -/
def Invocation.paths (invocation : Invocation) : List String :=
  invocation.config.toList ++ invocation.command.paths

/-- Adds what a route leads to to a tree, be it a directory or a file. -/
def loadStage (files : Files) (route : Route) : IO Files := do
  let text := (if route.origin = .root then "/" else "./") ++ "/".intercalate route.names
  try
    let _ ← IO.FS.realPath (text ++ "/")
    return { files with directories := route.target :: files.directories }
  catch _ =>
    try return files.write route.target (← IO.FS.readBinFile text).toList
    catch _ => return files

/-- Adds everything that a text leads through to a tree. -/
def loadPath (files : Files) (text : String) : IO Files :=
  (Route.ofText text).stages.foldlM loadStage files

/-- Makes on disk what has changed at a path. -/
def storePath (before after : Files) (text : String) : IO Unit := do
  let p := (Route.ofText text).target
  if before.contents? p = after.contents? p then return
  match after.contents? p with
  | some contents => IO.FS.writeBinFile text ⟨contents.toArray⟩
  | none => IO.FS.removeFile text

/-- Carries out a draw on a tape of random octets, which is made as long as it takes. -/
partial def drawFrom {α : Type} (draw : Draw α) (size : Nat) : IO (Option α) := do
  let tape := (← IO.getRandomBytes size.toUSize).toList
  match draw tape with
  | some (a, _) => return some a
  | none => drawFrom draw (4 * size)

/-- Carries out an invocation on the files of the disk. An interrupt ends the program, and is not
    left to a stream to look for. -/
def Invocation.perform (invocation : Invocation) : IO UInt32 := do
  let files ← invocation.paths.foldlM loadPath (Files.ofList [])
  let clock := (← Std.Time.Timestamp.now).toSecondsSinceUnixEpoch.val
  let some outcome ← drawFrom (run files clock (fun _ => false) invocation) 4096 | return 1
  invocation.paths.forM (storePath files outcome.files)
  IO.print outcome.stdout
  match outcome.failure with
  | some failure =>
    IO.eprintln ("Error: " ++ failure.message)
    return 1
  | none => return 0

/-- What is said of arguments that are no invocation, and the exit code. -/
def UsageError.report : UsageError → String × UInt32
  | helpRequested =>
    ("Commands: " ++ ", ".intercalate (Level.root.commands.map Prod.fst), 0)
  | versionRequested => (Version.number, 0)
  | nothingRequested | commandMissing => ("A command is missing", 2)
  | commandUnknown => ("Unknown command", 2)
  | argumentUnknown => ("Unknown argument", 2)
  | argumentMissing => ("A required argument is missing", 2)
  | argumentRepeated => ("An option is given twice", 2)
  | valueMissing => ("An option has no value", 2)
  | valueInvalid => ("An option has a bad value", 2)
  | valueUnwanted => ("An option takes no value", 2)

end SealedEnvelope.CommandLine

/-- Runs the program. -/
def main (arguments : List String) : IO UInt32 := do
  let environment :=
    { config := ← IO.getEnv "FABSTIR_ECIES_CONFIG"
      privateKey := ← IO.getEnv "FABSTIR_ECIES_PRIVATE_KEY" }
  match SealedEnvelope.CommandLine.Invocation.ofArguments environment arguments with
  | .ok invocation => invocation.perform
  | .error e =>
    IO.eprintln e.report.1
    return e.report.2
