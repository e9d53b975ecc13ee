import ExportKit.CommandLine.Outcome
import ExportKit.Mail.Notification

/-!
The program that composes messages about files. A diagram is printed as a raw message; a document
in PDF is written into a file, in an envelope.
-/
namespace ExportKit.CommandLine.MailTool

open Mail (Envelope Failure Message Notification)

def program : Program := ⟨"ario-mail", "0.1.0", "Compose diagram/PDF notification emails"⟩

/-- What the program is to do. -/
inductive Job where
  | diagram (file : Path) (sender recipient : String)
  | pdf (file output : Path) (sender recipient : String)
  deriving DecidableEq

/-- A job, and how it is logged. -/
structure Task where
  job : Job
  log : LogSettings
  deriving DecidableEq

def diagramFile : Parameter := ⟨"file", none, "DIAGRAM_FILE", some "DIAGRAM_FILE", .path, true⟩

def pdfFile : Parameter := ⟨"file", none, "PDF_FILE", some "PDF_FILE", .path, true⟩

def output : Parameter :=
  ⟨"output", none, "OUTPUT_JSON_FILE", some "OUTPUT_JSON_FILE", .path, true⟩

def sender : Parameter := ⟨"from", none, "EMAIL_FROM", some "EMAIL_FROM", .text, true⟩

def recipient : Parameter := ⟨"to", none, "EMAIL_TO", some "EMAIL_TO", .text, true⟩

def command : Command where
  parameters := [logFormat, verbose]
  hasVersion := true
  subcommands := ["diagram", "pdf", "help"]

def diagram : Command where
  parameters := [diagramFile, sender, recipient, logFormat, verbose]
  hasVersion := false
  subcommands := []

def pdf : Command where
  parameters := [pdfFile, output, sender, recipient, logFormat, verbose]
  hasVersion := false
  subcommands := []

def help : List (List UInt8) → Stop
  | [] => .help
  | name :: rest =>
    if command.isSubcommand name then
      match rest with
      | [] => .help
      | other :: _ => .refusal (.unknownSubcommand (shown other))
    else .refusal (.unknownSubcommand (shown name))

/-- The task of a subcommand, whose parameters describe the job. Those before it are checked after
its own. On the log, arguments after the subcommand say more than those before it, and they more
than the environment. -/
def subcommandTask (subcommand : Command) (describe : Settings → Except Stop Job)
    (environment : Environment) (outer : Progress) (arguments : List (List UInt8)) :
    Except Stop Task := do
  let (progress, _) ← subcommand.readArguments .start arguments
  let settings ← subcommand.complete environment progress
  let outerSettings ← command.finish environment outer
  let ownSettings ← subcommand.finish [] progress
  return {
    job := ← describe settings
    log := .ofSettings (ownSettings ++ outerSettings) environment }

def diagramJob (settings : Settings) : Except Stop Job := do
  return .diagram (← settings.path diagramFile) (← settings.text sender)
    (← settings.text recipient)

def pdfJob (settings : Settings) : Except Stop Job := do
  return .pdf (← settings.path pdfFile) (← settings.path output) (← settings.text sender)
    (← settings.text recipient)

def task (arguments : List (List UInt8)) (environment : Environment) : Except Stop Task := do
  match ← command.readArguments .start arguments with
  | (outer, none) =>
    let settings ← command.finish environment outer
    if settings = [] then .error .idle
    else refuse (.noSubcommand program.name command.subcommands)
  | (outer, some ("diagram", rest)) =>
    subcommandTask diagram diagramJob environment outer rest
  | (outer, some ("pdf", rest)) => subcommandTask pdf pdfJob environment outer rest
  | (_, some (_, rest)) => .error (help rest)

def exitCodeOf : Failure → ExitCode
  | .readAttachment _ _ => .input
  | .write _ _ => .output

/-- The end of the program for a failure after some events. -/
def failed (failure : Failure) (events : List Event) : Outcome :=
  .failure (exitCodeOf failure) failure.message events

/-- What is logged about a message of some kind that was composed. -/
def composed (kind : String) (file : Path) (message : Message) : List Event :=
  let attachment := message.attachment
  [⟨.debug, "read attachment",
      [("path", .text file.display), ("bytes", .number attachment.data.length),
        ("content_type", .text attachment.contentType.name)]⟩,
    ⟨.info, "composed " ++ kind ++ " email", [("file", .text file.display)]⟩]

def wrote (output : Path) : Event :=
  ⟨.info, "wrote email envelope", [("path", .text output.display)]⟩

/-- Does a job. The parts of the message are separated by `boundary`. -/
def run (job : Job) (boundary : String) (fs : FileSystem) : FileSystem × Outcome :=
  match job with
  | .diagram file sender recipient =>
    match Notification.diagram.compose fs file sender recipient with
    | .ok message =>
      (fs, .success (message.render boundary ++ "\n") (composed "diagram" file message))
    | .error failure => (fs, failed failure [])
  | .pdf file output sender recipient =>
    match Notification.pdf.compose fs file sender recipient with
    | .ok message =>
      let events := composed "PDF" file message
      match (Envelope.ofMessage message boundary).writeTo fs output with
      | .ok changed => (changed, .success "" (events ++ [wrote output]))
      | .error failure => (fs, failed failure events)
    | .error failure => (fs, failed failure [])

def execute (arguments : List (List UInt8)) (environment : Environment) (boundary : String)
    (fs : FileSystem) : FileSystem × Outcome :=
  match task arguments environment with
  | .ok task =>
    let (changed, outcome) := run task.job boundary fs
    outcome.conclude task.log changed
  | .error stop => (fs, stop.outcome program environment.wantsColor)

end ExportKit.CommandLine.MailTool
