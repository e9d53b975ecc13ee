/-!
Text for a terminal: stretches in several styles, and how to leave out what a terminal would obey
rather than show, which is control sequences, each of which starts with an escape character, and
control characters outside them.

Line ends, tabs and form feeds stay, even inside a sequence. What follows such a character up to
the next control character stays as well, and only then the sequence goes on.
-/
namespace ExportKit.Terminal

/-- What a character is part of. -/
inductive Place where
  /-- The text itself. -/
  | ground
  /-- A sequence of which only the escape character was seen. -/
  | escape
  /-- A sequence of two or more characters that is not of any kind below. -/
  | intermediate
  /-- A control sequence after its bracket. -/
  | control
  /-- A device control string: just begun, in its parameters, or after them. -/
  | deviceEntry
  | deviceParameters
  | deviceIntermediate
  /-- A string that lasts up to a string terminator. -/
  | string
  /-- An operating system command, which a bell ends, too. -/
  | command
  deriving DecidableEq

def isBetween (low high c : Char) : Bool := low ≤ c && c ≤ high

/-- Whether one of the bytes of a character is that of the terminator of a string. -/
def hasTerminator (c : Char) : Bool := 0x9c ∈ String.utf8EncodeChar c

/-- What the character after `c` is part of. -/
def Place.next (place : Place) (c : Char) : Place :=
  if c = '\x1b' then .escape
  else if c = '\x18' ∨ c = '\x1a' then .ground
  else
    match place with
    | .ground => .ground
    | .escape =>
      if c = '[' then .control
      else if c = ']' then .command
      else if c = 'P' then .deviceEntry
      else if c = 'X' ∨ c = '^' ∨ c = '_' then .string
      else if isBetween ' ' '/' c then .intermediate
      else if isBetween '0' '~' c then .ground
      else .escape
    | .intermediate => if isBetween '0' '~' c then .ground else .intermediate
    | .control => if isBetween '@' '~' c then .ground else .control
    | .deviceEntry =>
      if isBetween '@' '~' c then .string
      else if isBetween ' ' '/' c then .deviceIntermediate
      else if isBetween '0' '?' c then .deviceParameters
      else .deviceEntry
    | .deviceParameters =>
      if isBetween '<' '~' c then .string
      else if isBetween ' ' '/' c then .deviceIntermediate
      else .deviceParameters
    | .deviceIntermediate => if isBetween '0' '~' c then .string else .deviceIntermediate
    | .string => if hasTerminator c then .ground else .string
    | .command => if c = '\x07' then .ground else .command

/-- Whether a character only moves what follows it. -/
def isLayout (c : Char) : Bool := c = '\t' || c = '\n' || c = '\x0c' || c = '\r'

/-- Whether a character is shown where no sequence is open. -/
def isPlain (c : Char) : Bool := isLayout c || ' ' ≤ c && c ≠ '\x7f'

/-- Whether a character is shown at a place. -/
def Place.shows (place : Place) (c : Char) : Bool :=
  match place with
  | .ground => isPlain c
  | .escape | .intermediate | .control => isLayout c
  | _ => false

/-- The part of a text that is shown, the text starting at a place, and in the middle of what is
shown if `shown`. There, only a character beyond ASCII ends a sequence that is still open. -/
def showFrom (place : Place) (shown : Bool) : List Char → List Char
  | [] => []
  | c :: rest =>
    if shown && isPlain c then
      c :: showFrom (if c.toNat < 128 then place else .ground) true rest
    else if !shown && place.shows c then c :: showFrom (place.next c) true rest
    else showFrom (place.next c) false rest

def shownPart (text : String) : String := String.ofList (showFrom .ground false text.toList)

inductive Style where
  | plain
  | bold
  | dim
  | italic
  | red
  | boldRed
  | green
  | yellow
  | blue
  deriving DecidableEq

def Style.start : Style → String
  | .plain => ""
  | .bold => "\x1b[1m"
  | .dim => "\x1b[2m"
  | .italic => "\x1b[3m"
  | .red => "\x1b[31m"
  | .boldRed => "\x1b[1m\x1b[31m"
  | .green => "\x1b[32m"
  | .yellow => "\x1b[33m"
  | .blue => "\x1b[34m"

def Style.stop : Style → String
  | .plain => ""
  | _ => "\x1b[0m"

/-- A stretch of text in one style. -/
structure Span where
  style : Style
  text : String
  deriving DecidableEq

def plain (text : String) : Span := ⟨.plain, text⟩

/-- The stretch with what turns its style on and off. -/
def Span.styled (span : Span) : String := span.style.start ++ span.text ++ span.style.stop

/-- The text of some stretches with their styles. -/
def styled (spans : List Span) : String := String.join (spans.map Span.styled)

def unstyled (spans : List Span) : String := String.join (spans.map (·.text))

end ExportKit.Terminal
