import RegisterMapping.Bank
import RegisterMapping.CommandLine.Request
import RegisterMapping.Listing.Parse
import RegisterMapping.Report.Text
import RegisterMapping.Utf8

/-!
# What a call of the program does

A call either is answered at once or becomes a `Job`: an action on the listing in a file, for a
target. A job prints its report if the file can be read, is valid UTF-8 and parses without a
diagnostic, and prints nothing otherwise.
-/

set_option autoImplicit false

namespace RegisterMapping.CommandLine

/-- What happened in a call: the exit code, the standard output, the error that is named at the
end, the diagnostics of the listing, and the log. -/
structure Outcome where
  exitCode : Nat
  output : String
  error? : Option String
  diagnostics : List Diagnostic
  log : List LogRecord
  deriving DecidableEq

namespace Outcome

/-- A call that succeeds with some output. -/
def success (output : String) (log : List LogRecord) : Outcome := ⟨0, output, none, [], log⟩

/-- A call that fails with an error. -/
def failure (error : String) (diagnostics : List Diagnostic) (log : List LogRecord) : Outcome :=
  ⟨1, "", some error, diagnostics, log⟩

/-- A call with the wrong arguments. -/
def wrongUsage : Outcome := ⟨2, "", none, [], []⟩

end Outcome

/-- Why a file cannot be read. -/
inductive FileError where
  | notFound
  | notADirectory
  | isADirectory
  | other (description : String)
  deriving DecidableEq, Repr

/-- What is said about a file that cannot be read. -/
def FileError.message : FileError → String
  | notFound => "No such file or directory (os error 2)"
  | notADirectory => "Not a directory (os error 20)"
  | isADirectory => "Is a directory (os error 21)"
  | other description => description

/-- An action on the listing in a file, for a target. -/
structure Job where
  action : Action
  target : Target
  names : Bool
  verbose : Bool
  path : String
  deriving DecidableEq, Repr

namespace Job

/-- The job that a call asks for, or the outcome if there is none. Without the name of a target the
job is for the host. -/
def ofArguments (reader : CallReader) (arguments : List String) : Except Outcome Job :=
  match reader.request? arguments with
  | none => .error .wrongUsage
  | some (.version action?) => .error (.success (versionText action?) [])
  | some (.report action options) =>
    match reader.targetOf? options.target? with
    | some target => .ok ⟨action, target, options.names, options.verbose, options.path⟩
    | none => .error .wrongUsage

/-- The bank that real registers are checked against. -/
def bank? (job : Job) : Option Bank := Bank.ofArchitecture? job.target.arch

/-- The bank that real registers are named after. -/
def namingBank? (job : Job) : Option Bank := if job.names then job.bank? else none

/-- The record about the bank. -/
def bankLog (job : Job) : List LogRecord :=
  match job.bank? with
  | some _ => [⟨.info, s!"using the {job.target.arch.text} register bank"⟩]
  | none =>
    [⟨.warn, s!"no register bank for {job.target.arch.text}, real registers are not checked"⟩]

/-- The record about names that are asked for and cannot be given. -/
def namesLog (job : Job) : List LogRecord :=
  if job.names && job.bank?.isNone then
    [⟨.warn, s!"--names given but {job.target.text} has no register bank"⟩]
  else
    []

/-- The text of the report that the action asks for. -/
def reportText (job : Job) (listing : Listing) : Traced (ProgramFailure UsageError) String :=
  match job.action with
  | .usage => (UsageReport.text .plain job.namingBank?) <$> listing.usageReport
  | .substitute => (SubstitutionReport.text .plain job.namingBank?) <$> listing.substitutionReport

/-- Report on a listing that has been parsed. -/
def report (job : Job) (parsed : ParsedListing) (log : List LogRecord) : Outcome :=
  if parsed.clean then
    let text := job.reportText parsed.listing
    match text.outcome with
    | .ok output => .success output (log ++ job.namesLog ++ text.log)
    | .error failure => .failure failure.cause.message [] (log ++ job.namesLog ++ text.log)
  else
    .failure s!"could not read {job.path} due to {parsed.diagnostics.length} errors"
      parsed.diagnostics log

/-- Do a job on the bytes of its file. -/
def runOnBytes (job : Job) (bytes : List UInt8) : Outcome :=
  match Utf8.decode bytes with
  | .error e => .failure e.message [] job.bankLog
  | .ok source =>
    let parsed := Listing.parse source 0 job.bank?
    job.report parsed (job.bankLog ++ Listing.parseLog 0 parsed)

/-- Do a job on what reading its file gave. -/
def run (job : Job) : Except FileError (List UInt8) → Outcome
  | .error e => .failure e.message [] job.bankLog
  | .ok bytes => job.runOnBytes bytes

end Job

end RegisterMapping.CommandLine
