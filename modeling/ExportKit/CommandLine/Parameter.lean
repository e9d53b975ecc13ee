import ExportKit.Path
import ExportKit.Table.Partition
import ExportKit.Text.Digits
import ExportKit.Text.Terminal

/-!
Parameters of a command: what they are called, where their values come from, and which texts are
values. Arguments and environment variables are any bytes.
-/
namespace ExportKit.CommandLine

open Table (BucketWidth)
open Terminal (Span Style plain)

/-- What the value of a parameter may be. -/
inductive ValueKind where
  /-- Any bytes but none. -/
  | path
  /-- Text in UTF-8. -/
  | text
  /-- A positive number of 64 bits. -/
  | positive
  /-- One of several words. -/
  | word (words : List String)
  /-- A switch takes no value; an environment variable may set it to `true` or `false`. -/
  | switch
  deriving DecidableEq

/-- The value of a parameter. -/
inductive Value where
  | path (path : Path)
  | text (text : String)
  | positive (width : BucketWidth)
  | word (word : String)
  | switch (isOn : Bool)
  deriving DecidableEq

/-- A parameter of a command. -/
structure Parameter where
  /-- The name that follows two hyphens. -/
  name : String
  /-- The letter that may follow one hyphen instead. -/
  letter : Option Char
  /-- What stands for the value in messages. -/
  placeholder : String
  /-- The environment variable that gives the value if no argument does. -/
  envName : Option String
  kind : ValueKind
  /-- Whether the command needs a value. -/
  isRequired : Bool
  deriving DecidableEq

namespace Parameter

def help : Parameter := ⟨"help", some 'h', "HELP", none, .switch, false⟩

def version : Parameter := ⟨"version", some 'V', "VERSION", none, .switch, false⟩

/-- Whether an argument of the parameter is followed by a value. -/
def takesValue (parameter : Parameter) : Bool := parameter.kind ≠ .switch

def usage (parameter : Parameter) : String :=
  if parameter.takesValue then "--" ++ parameter.name ++ " <" ++ parameter.placeholder ++ ">"
  else "--" ++ parameter.name

/-- The words that are values of the parameter, if it takes only words. -/
def words (parameter : Parameter) : List String :=
  match parameter.kind with
  | .word words => words
  | .switch => ["true", "false"]
  | _ => []

end Parameter

/-- Why arguments are refused. -/
inductive Refusal where
  | unexpected (argument : String)
  | unknownSubcommand (argument : String)
  | noSubcommand (program : String) (names : List String)
  | missingValue (parameter : Parameter)
  | invalidWord (value : String) (parameter : Parameter)
  | invalidNumber (value : String) (parameter : Parameter) (reason : String)
  | notText
  | unneededValue (value : String) (parameter : Parameter)
  | repeated (parameter : Parameter)
  | missing (parameters : List Parameter)
  deriving DecidableEq

namespace Refusal

/-- A line that lists words under a title, if there are any. -/
def wordsLine (title : String) (words : List String) : List Span :=
  if words = [] then []
  else
    plain ("\n  [" ++ title ++ ": ") ::
      [plain ", "].intercalate (words.map fun word => [⟨.green, word⟩]) ++ [plain "]"]

/-- A text, a quotation in a style, and a text after it. -/
def quoting (before : String) (style : Style) (quotation after : String) : List Span :=
  [plain (before ++ "'"), ⟨style, quotation⟩, plain ("'" ++ after)]

def invalidValue (value : String) (parameter : Parameter) (after : String) : List Span :=
  quoting "invalid value " .yellow value " for " ++ quoting "" .bold parameter.usage after

def message : Refusal → List Span
  | .unexpected argument => quoting "unexpected argument " .yellow argument " found"
  | .unknownSubcommand argument => quoting "unrecognized subcommand " .yellow argument ""
  | .noSubcommand program names =>
    quoting "" .yellow program " requires a subcommand but one was not provided" ++
      wordsLine "subcommands" names
  | .missingValue parameter =>
    quoting "a value is required for " .yellow parameter.usage " but none was supplied" ++
      wordsLine "possible values" parameter.words
  | .invalidWord value parameter =>
    invalidValue value parameter "" ++ wordsLine "possible values" parameter.words
  | .invalidNumber value parameter reason => invalidValue value parameter (": " ++ reason)
  | .notText => [plain "invalid UTF-8 was detected in one or more arguments"]
  | .unneededValue value parameter =>
    quoting "unexpected value " .yellow value " for " ++
      quoting "" .bold parameter.usage " found; no more were expected"
  | .repeated parameter =>
    quoting "the argument " .yellow parameter.usage " cannot be used multiple times"
  | .missing parameters =>
    plain "the following required arguments were not provided:" ::
      parameters.flatMap fun parameter => [plain "\n  ", ⟨.green, parameter.usage⟩]

end Refusal

/-- The positive number of 64 bits that a text stands for: digits after an optional plus sign, or
else the reason why it is none. Digits that already exceed the range are reported before what
follows them. -/
def readPositive (text : List Char) : Except String BucketWidth :=
  let digits := if text.head? = some '+' then text.tail else text
  let leading := digits.takeWhile Char.isDigit
  if text = [] then .error "cannot parse integer from empty string"
  else if digits = [] then .error "invalid digit found in string"
  else if UInt64.size ≤ Nat.ofDigitChars 10 leading 0 then
    .error "number too large to fit in target type"
  else if leading.length < digits.length then .error "invalid digit found in string"
  else
    let number := UInt64.ofNat (Nat.ofDigitChars 10 leading 0)
    if positive : number ≠ 0 then .ok ⟨number, positive⟩
    else .error "number would be zero for non-zero type"

namespace Parameter

/-- One of the words of a parameter. No bytes at all count as a missing value. -/
def readWord (parameter : Parameter) (bytes : List UInt8) : Except Refusal String :=
  match parameter.words.find? fun word => Utf8.encode word.toList = bytes with
  | some word => .ok word
  | none =>
    if bytes = [] then .error (.missingValue parameter)
    else .error (.invalidWord (String.ofList (Utf8.decodeLossy bytes)) parameter)

def read (parameter : Parameter) (bytes : List UInt8) : Except Refusal Value :=
  match parameter.kind with
  | .path => if bytes = [] then .error (.missingValue parameter) else .ok (.path ⟨bytes⟩)
  | .text =>
    match Utf8.decode? bytes with
    | some chars => .ok (.text (String.ofList chars))
    | none => .error .notText
  | .positive =>
    match Utf8.decode? bytes with
    | some chars =>
      match readPositive chars with
      | .ok number => .ok (.positive number)
      | .error reason => .error (.invalidNumber (String.ofList chars) parameter reason)
    | none => .error .notText
  | .word _ => (parameter.readWord bytes).map .word
  | .switch => (parameter.readWord bytes).map fun word => .switch (word = "true")

end Parameter

end ExportKit.CommandLine
