import ExportKit.CommandLine.Parameter

/-!
Reading the arguments of a command. Arguments are taken in order: an option waits for its value,
which is checked only when the next option is reached or the arguments end, and an argument that
fits nowhere is refused before that. The first subcommand takes all arguments after it. Parameters
without an argument are then looked up in the environment.
-/
namespace ExportKit.CommandLine

/-- A command and its parameters, in the order in which they are reported. -/
structure Command where
  parameters : List Parameter
  /-- Whether the command can be asked for its version. -/
  hasVersion : Bool
  subcommands : List String

abbrev Environment := List (String × List UInt8)

namespace Environment

/-- Whether a variable is set to anything but the empty value. -/
def isSet (environment : Environment) (name : String) : Bool :=
  match environment.lookup name with
  | some value => value ≠ []
  | none => false

def noColor : String := "NO_COLOR"

def forceColor : String := "CLICOLOR_FORCE"

/-- Whether messages that do not go to a terminal are to be in colors. -/
def wantsColor (environment : Environment) : Bool :=
  environment.isSet forceColor && !environment.isSet noColor

end Environment

/-- Values of parameters by their names. -/
abbrev Settings := List (String × Value)

/-- Why a command does not run. -/
inductive Stop where
  /-- The command was asked how it is used. -/
  | help
  /-- The command was asked for its version. -/
  | version
  /-- The command was given nothing at all and tells how it is used. -/
  | idle
  | refusal (refusal : Refusal)
  deriving DecidableEq

/-- How far the arguments of a command were read. -/
structure Progress where
  /-- The values that were checked. -/
  settled : Settings
  /-- An option that was reached, with its value once that was reached, too. -/
  waiting : Option (Parameter × Option (List UInt8))
  /-- Whether two hyphens on their own have ended the options. -/
  isTrailing : Bool

namespace Progress

def start : Progress := ⟨[], none, false⟩

/-- Checks the value of a parameter, and that it is the only one. -/
def settle (progress : Progress) (parameter : Parameter) (value : Option (List UInt8)) :
    Except Stop Progress :=
  match value with
  | none => .error (.refusal (.missingValue parameter))
  | some bytes =>
    if (progress.settled.lookup parameter.name).isSome then
      .error (.refusal (.repeated parameter))
    else
      match parameter.read bytes with
      | .ok value =>
        .ok { progress with settled := progress.settled ++ [(parameter.name, value)] }
      | .error refusal => .error (.refusal refusal)

/-- Checks the option that was reached last. -/
def settleWaiting (progress : Progress) : Except Stop Progress :=
  match progress.waiting with
  | none => .ok progress
  | some (parameter, value) => { progress with waiting := none }.settle parameter value

def expecting? (progress : Progress) : Option Parameter :=
  match progress.waiting with
  | some (parameter, none) => some parameter
  | _ => none

/-- Checks a parameter that an argument gives together with its value. -/
def give (progress : Progress) (parameter : Parameter) (bytes : List UInt8) :
    Except Stop Progress := do
  (← progress.settleWaiting).settle parameter (some bytes)

/-- Turns a switch on. A question is answered as soon as it is asked. -/
def turnOn (progress : Progress) (parameter : Parameter) : Except Stop Progress := do
  if parameter = .help ∨ parameter = .version then
    let _ ← progress.settleWaiting
    .error (if parameter = .help then .help else .version)
  else progress.give parameter (Utf8.encode "true".toList)

/-- Takes an environment variable into account, unless an argument gave the parameter a value. -/
def useVariable (environment : Environment) (progress : Progress) (parameter : Parameter) :
    Except Stop Progress :=
  if (progress.settled.lookup parameter.name).isSome then .ok progress
  else
    match parameter.envName.bind fun name => environment.lookup name with
    | some bytes => progress.settle parameter (some bytes)
    | none => .ok progress

end Progress

def refuse {α : Type} (refusal : Refusal) : Except Stop α := .error (.refusal refusal)

def shown (bytes : List UInt8) : String := String.ofList (Utf8.decodeLossy bytes)

def hyphen : UInt8 := 45

def equals : UInt8 := 61

namespace Command

/-- What an option may name: the parameters of the command, and questions about it. -/
def options (command : Command) : List Parameter :=
  command.parameters ++ .help :: (if command.hasVersion then [.version] else [])

/-- Reads an argument that two hyphens stood before. -/
def readLong (command : Command) (progress : Progress) (bytes : List UInt8) :
    Except Stop Progress := do
  let name := bytes.takeWhile (· ≠ equals)
  let value? := (bytes.dropWhile (· ≠ equals)).tail?
  match command.options.find? fun option => Utf8.encode option.name.toList = name with
  | some option =>
    match option.takesValue, value? with
    | true, some value => progress.give option value
    | true, none => return { ← progress.settleWaiting with waiting := some (option, none) }
    | false, some value => refuse (.unneededValue (shown value) option)
    | false, none => progress.turnOn option
  | none => refuse (.unexpected ("--" ++ shown name))

/-- Reads the letters of an argument that one hyphen stood before. From the first one on that is
not UTF-8 the bytes are refused together. -/
def readLetters (command : Command) : Progress → List (Option Char) → List UInt8 →
    Except Stop Progress
  | progress, [], _ => .ok progress
  | _, none :: _, bytes => refuse (.unexpected ("-" ++ shown bytes))
  | progress, some letter :: rest, bytes =>
    match command.options.find? fun option => option.letter = some letter with
    | some option => do
      command.readLetters (← progress.turnOn option) rest
        (bytes.drop (Utf8.encode [letter]).length)
    | none => refuse (.unexpected ("-" ++ String.singleton letter))

def isSubcommand (command : Command) (bytes : List UInt8) : Bool :=
  command.subcommands.any fun name => Utf8.encode name.toList = bytes

def refuseBare (command : Command) (progress : Progress) (bytes : List UInt8) :
    Except Stop Progress :=
  if command.subcommands = [] ∨ progress.isTrailing ∧ command.isSubcommand bytes then
    refuse (.unexpected (shown bytes))
  else refuse (.unknownSubcommand (shown bytes))

/-- Reads an argument that is not a subcommand. -/
def readArgument (command : Command) (progress : Progress) (bytes : List UInt8) :
    Except Stop Progress :=
  let value : Except Stop Progress :=
    match progress.expecting? with
    | some parameter => .ok { progress with waiting := some (parameter, some bytes) }
    | none => command.refuseBare progress bytes
  if progress.isTrailing then command.refuseBare progress bytes
  else if bytes = [hyphen, hyphen] then .ok { progress with isTrailing := true }
  else if bytes.take 2 = [hyphen, hyphen] then command.readLong progress (bytes.drop 2)
  else if bytes.take 1 = [hyphen] ∧ bytes ≠ [hyphen] then
    command.readLetters progress (Utf8.pieces (bytes.drop 1)) (bytes.drop 1)
  else value

/-- Reads arguments up to a subcommand, and gives back its name and the arguments after it. -/
def readArguments (command : Command) :
    Progress → List (List UInt8) → Except Stop (Progress × Option (String × List (List UInt8)))
  | progress, [] => .ok (progress, none)
  | progress, bytes :: rest =>
    if !progress.isTrailing && progress.expecting?.isNone && command.isSubcommand bytes then
      .ok (progress, some (shown bytes, rest))
    else do command.readArguments (← command.readArgument progress bytes) rest

/-- The values of the parameters of a command once its arguments were read. -/
def finish (command : Command) (environment : Environment) (progress : Progress) :
    Except Stop Settings := do
  let progress ← progress.settleWaiting
  let progress ← command.parameters.foldlM (Progress.useVariable environment) progress
  return progress.settled

/-- The values of the parameters of a command, all required ones among them. -/
def complete (command : Command) (environment : Environment) (progress : Progress) :
    Except Stop Settings := do
  let settings ← command.finish environment progress
  match command.parameters.filter fun parameter =>
      parameter.isRequired && (settings.lookup parameter.name).isNone with
  | [] => return settings
  | missing => refuse (.missing missing)

end Command

namespace Settings

def path? (settings : Settings) (name : String) : Option Path :=
  match settings.lookup name with
  | some (.path path) => some path
  | _ => none

def path (settings : Settings) (parameter : Parameter) : Except Stop Path :=
  match settings.path? parameter.name with
  | some path => .ok path
  | none => refuse (.missing [parameter])

def text? (settings : Settings) (name : String) : Option String :=
  match settings.lookup name with
  | some (.text text) => some text
  | _ => none

def text (settings : Settings) (parameter : Parameter) : Except Stop String :=
  match settings.text? parameter.name with
  | some text => .ok text
  | none => refuse (.missing [parameter])

def positive? (settings : Settings) (name : String) : Option Table.BucketWidth :=
  match settings.lookup name with
  | some (.positive number) => some number
  | _ => none

def word? (settings : Settings) (name : String) : Option String :=
  match settings.lookup name with
  | some (.word word) => some word
  | _ => none

def isOn (settings : Settings) (name : String) : Bool :=
  settings.lookup name = some (.switch true)

end Settings

end ExportKit.CommandLine
