import ExportKit.CommandLine.Log
import ExportKit.FileSystem.Basic

/-!
What a program leaves behind when it ends, its changes to files apart: an exit code and what it
printed. The codes tell what went wrong without reading any output.
-/
namespace ExportKit.CommandLine

/-- How a program ends. -/
inductive ExitCode where
  /-- All work was done. -/
  | clean
  /-- The arguments were refused. -/
  | usage
  /-- What the program is to work on is not there. -/
  | configuration
  /-- An input cannot be read. -/
  | input
  /-- An output cannot be written. -/
  | output
  /-- The result cannot be put into words. -/
  | internal
  deriving DecidableEq

def ExitCode.toNat : ExitCode → Nat
  | .clean => 0
  | .usage => 2
  | .configuration => 10
  | .input => 11
  | .output => 13
  | .internal => 99

/-- The end of a program. -/
structure Outcome where
  exitCode : ExitCode
  /-- What was printed as the result. -/
  printed : String
  /-- What was said about a failure. -/
  complaint : Option String
  /-- What was said on the way. -/
  log : Log
  deriving DecidableEq

namespace Outcome

def success (printed : String) (events : List Event) : Outcome :=
  ⟨.clean, printed, none, ⟨default, events⟩⟩

/-- The end of a program that failed, and logged that after some other events. -/
def failure (exitCode : ExitCode) (message : String) (events : List Event) : Outcome :=
  ⟨exitCode, "", some ("Error: " ++ message), ⟨default, events ++ [⟨.error, message, []⟩]⟩⟩

def refusal (complaint : String) : Outcome := ⟨.usage, "", some complaint, ⟨default, []⟩⟩

/-- The text on the error output, log lines first. -/
def errorText (outcome : Outcome) (time : String) : String :=
  outcome.log.text time ++ ((outcome.complaint.map (· ++ "\n")).getD "")

/-- The end of a program with settings for its log. What it wrote to the standard output before it
ended is taken from the file system, and stands before what was printed at the end. -/
def conclude (outcome : Outcome) (settings : LogSettings) (fs : FileSystem) :
    FileSystem × Outcome :=
  ({ fs with output := [] },
    { outcome with
      printed := String.ofList (Utf8.decodeLossy fs.output) ++ outcome.printed
      log := { outcome.log with settings } })

end Outcome

/-- A program, as it speaks about itself. -/
structure Program where
  name : String
  version : String
  about : String

/-- The end of a program that does not run. A refusal stands out in colors if they are wanted. -/
def Stop.outcome (program : Program) (isColored : Bool) : Stop → Outcome
  | .help => .success (program.about ++ "\n") []
  | .version => .success (program.name ++ " " ++ program.version ++ "\n") []
  | .idle => .refusal program.about
  | .refusal cause =>
    let text := Terminal.styled (⟨.boldRed, "error:"⟩ :: Terminal.plain " " :: cause.message)
    .refusal (if isColored then text else Terminal.shownPart text)

end ExportKit.CommandLine
