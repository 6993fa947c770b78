import RegisterMapping.CommandLine.Arguments
import RegisterMapping.CommandLine.Job

/-!
# The command line program

Reads the file that a call names, lets the job run on its bytes, and writes the outcome: the
output, the diagnostics of the listing, the log if it is asked for, and the error.
-/

set_option autoImplicit false

namespace RegisterMapping.CommandLine

/-- The reason for which a file could not be read. -/
def FileError.ofIOError (e : IO.Error) : FileError :=
  match e with
  | .noFileOrDirectory .. => .notFound
  | .inappropriateType _ 21 _ => .isADirectory
  | .inappropriateType .. => .notADirectory
  | e => .other (toString e)

/-- The bytes of a file. -/
def readBytes (path : String) : IO (Except FileError (List UInt8)) := do
  try
    let bytes ← IO.FS.readBinFile path
    return .ok bytes.toList
  catch e =>
    return .error (.ofIOError e)

/-- Write a diagnostic to the standard error. -/
def printDiagnostic (path : String) (diagnostic : Diagnostic) : IO Unit := do
  IO.eprintln s!"error[{diagnostic.code}]: {diagnostic.message}"
  for label in diagnostic.labels do
    IO.eprintln s!"  {path}, bytes {label.span.start} to {label.span.stop} {label.message}"
  for note in diagnostic.notes do
    IO.eprintln s!"  note: {note}"

/-- Write an outcome and give its exit code. -/
def printOutcome (path : String) (verbose : Bool) (outcome : Outcome) : IO UInt32 := do
  if verbose then
    for record in outcome.log do
      IO.eprintln s!"[{record.level.text}] {record.message}"
  for diagnostic in outcome.diagnostics do
    printDiagnostic path diagnostic
  IO.print outcome.output
  if let some e := outcome.error? then
    IO.eprintln s!"Error: {e}"
  return UInt32.ofNat outcome.exitCode

end RegisterMapping.CommandLine

open RegisterMapping RegisterMapping.CommandLine in
/-- Run the program on the arguments of a call. -/
def main (arguments : List String) : IO UInt32 := do
  match Job.ofArguments .ofWords arguments with
  | .ok job => printOutcome job.path job.verbose (job.run (← readBytes job.path))
  | .error outcome =>
    if outcome.exitCode = 2 then
      IO.eprintln "usage: hregc usage|rewrite [-t TARGET] [--names] [-v] PATH"
    printOutcome "" false outcome
