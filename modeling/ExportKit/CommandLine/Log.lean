import ExportKit.CommandLine.Arguments
import ExportKit.Json.Printer

/-!
Log lines: what a program says about its work on the way. In a line for readers a value stands as
it is, so that what follows a line end in it begins a line of its own. In a line for programs every
event is a JSON document.
-/
namespace ExportKit.CommandLine

open Terminal (Span Style plain)

/-- How important an event is. -/
inductive Level where
  | debug
  | info
  | warn
  | error
  deriving DecidableEq

namespace Level

def word : Level → String
  | .debug => "DEBUG"
  | .info => "INFO"
  | .warn => "WARN"
  | .error => "ERROR"

def style : Level → Style
  | .debug => .blue
  | .info => .green
  | .warn => .yellow
  | .error => .red

def rank : Level → Nat
  | .debug => 0
  | .info => 1
  | .warn => 2
  | .error => 3

def least (isVerbose : Bool) : Level := if isVerbose then .debug else .info

def choice (level : Level) : String := String.ofList (level.word.toList.map Char.toLower)

end Level

/-- A value that an event has. -/
inductive EventValue where
  | text (value : String)
  | number (value : Nat)
  deriving DecidableEq

namespace EventValue

def toJson : EventValue → Json
  | .text value => .string value
  | .number value => .int value

def shown : EventValue → String
  | .text value => value
  | .number value => String.ofList (Digits.write value)

end EventValue

/-- Something that happened while a program worked. -/
structure Event where
  level : Level
  message : String
  fields : List (String × EventValue)
  deriving DecidableEq

/-- How log lines look, and whether those for debugging are shown. -/
structure LogSettings where
  isJson : Bool
  isVerbose : Bool
  isColored : Bool
  deriving DecidableEq, Inhabited

namespace Event

/-- A line for readers. The words for levels take up the same space. -/
def spans (time : String) (event : Event) : List Span :=
  [⟨.dim, time⟩, plain " ",
    ⟨event.level.style, "".pushn ' ' (5 - event.level.word.length) ++ event.level.word⟩,
    plain (" " ++ event.message)] ++
  event.fields.flatMap fun (name, value) =>
    [plain " ", ⟨.italic, name⟩, ⟨.dim, "="⟩, plain value.shown]

/-- A line for programs. -/
def toJson (time : String) (event : Event) : Json :=
  .object
    [("timestamp", .string time), ("level", .string event.level.word),
      ("fields", .object (("message", .string event.message) ::
        event.fields.map fun (name, value) => (name, value.toJson)))]

/-- The line about an event, with the time that it is given. -/
def line (settings : LogSettings) (time : String) (event : Event) : String :=
  if settings.isJson then (event.toJson time).compact
  else if settings.isColored then Terminal.styled (event.spans time)
  else Terminal.unstyled (event.spans time)

def isShown (settings : LogSettings) (event : Event) : Bool :=
  (Level.least settings.isVerbose).rank ≤ event.level.rank

end Event

/-- What a program logged. -/
structure Log where
  settings : LogSettings
  events : List Event
  deriving DecidableEq

/-- The lines of a log, all with the same time. -/
def Log.text (log : Log) (time : String) : String :=
  String.join ((log.events.filter (Event.isShown log.settings)).map fun event =>
    event.line log.settings time ++ "\n")

/-- The words that choose between text and a document. -/
def formatWords : List String := ["text", "json"]

def logFormat : Parameter :=
  ⟨"log-format", none, "LOG_FORMAT", some "ARIO_LOG_FORMAT", .word formatWords, false⟩

def verbose : Parameter := ⟨"verbose", some 'v', "VERBOSE", none, .switch, false⟩

/-- How log lines are to look. They have colors unless those are forbidden. -/
def LogSettings.ofSettings (settings : Settings) (environment : Environment) : LogSettings where
  isJson := settings.word? logFormat.name = some "json"
  isVerbose := settings.isOn verbose.name
  isColored := !environment.isSet Environment.noColor

end ExportKit.CommandLine
