/-!
JSON text as written: the syntax tree of a text before anything in it is given a meaning. Strings
keep their escapes, numbers their digits, and objects all their fields in order, so that a reader
may skip a part of a document without asking more of it than that it is well-formed.
-/
namespace ExportKit.Json

/-- A number as written. The digits after the point are empty if there is no point, and an
exponent has a sign and digits. -/
structure Numeral where
  negative : Bool
  whole : List Char
  fraction : List Char
  exponent : Option (Bool × List Char)
  deriving DecidableEq, Inhabited

/-- A value as written. A string keeps what stands between its quotes. -/
inductive Source where
  | null
  | bool (value : Bool)
  | number (numeral : Numeral)
  | string (raw : List Char)
  | array (items : List Source)
  | object (fields : List (List Char × Source))
  deriving Inhabited

/-- The characters that may stand between tokens. -/
def isGap (c : Char) : Bool := c = ' ' || c = '\t' || c = '\n' || c = '\r'

def skipGaps (text : List Char) : List Char := text.dropWhile isGap

def isHexDigit (c : Char) : Bool :=
  c.isDigit || ('a' ≤ c && c ≤ 'f') || ('A' ≤ c && c ≤ 'F')

/-- The characters that a backslash may precede, other than `u`. -/
def isShortEscape (c : Char) : Bool :=
  c = '"' || c = '\\' || c = '/' || c = 'b' || c = 'f' || c = 'n' || c = 'r' || c = 't'

/-- The rest of a string after its opening quote, up to the closing one, and what follows. -/
def scanString : List Char → Option (List Char × List Char)
  | [] => none
  | '"' :: rest => some ([], rest)
  | '\\' :: 'u' :: a :: b :: c :: d :: rest =>
    if isHexDigit a && isHexDigit b && isHexDigit c && isHexDigit d then
      (scanString rest).map fun (raw, rest) => ('\\' :: 'u' :: a :: b :: c :: d :: raw, rest)
    else none
  | '\\' :: c :: rest =>
    if isShortEscape c then
      (scanString rest).map fun (raw, rest) => ('\\' :: c :: raw, rest)
    else none
  | c :: rest =>
    if c.toNat < 32 then none
    else (scanString rest).map fun (raw, rest) => (c :: raw, rest)

/-- A non-empty run of digits and what follows it. -/
def scanDigits? (text : List Char) : Option (List Char × List Char) :=
  let digits := text.takeWhile Char.isDigit
  if digits = [] then none else some (digits, text.dropWhile Char.isDigit)

def scanFraction? : List Char → Option (List Char × List Char)
  | '.' :: text => scanDigits? text
  | text => some ([], text)

/-- The exponent of a number, if there is one. -/
def scanExponent? : List Char → Option (Option (Bool × List Char) × List Char)
  | c :: text =>
    if c = 'e' ∨ c = 'E' then
      let (negative, text) :=
        match text with
        | '-' :: text => (true, text)
        | '+' :: text => (false, text)
        | text => (false, text)
      (scanDigits? text).map fun (digits, rest) => (some (negative, digits), rest)
    else some (none, c :: text)
  | [] => some (none, [])

/-- A number and what follows it. The digits before the point have no leading zero. -/
def scanNumeral? (text : List Char) : Option (Numeral × List Char) := do
  let (negative, text) :=
    match text with
    | '-' :: text => (true, text)
    | text => (false, text)
  let (whole, text) ← scanDigits? text
  if whole.head? = some '0' ∧ whole.length ≠ 1 then none
  let (fraction, text) ← scanFraction? text
  let (exponent, text) ← scanExponent? text
  some (⟨negative, whole, fraction, exponent⟩, text)

mutual

/-- A value at the front of a text, which has no leading gaps, and what follows it. -/
def scanValue : Nat → List Char → Option (Source × List Char)
  | 0, _ => none
  | fuel + 1, text =>
    match text with
    | 'n' :: 'u' :: 'l' :: 'l' :: rest => some (.null, rest)
    | 't' :: 'r' :: 'u' :: 'e' :: rest => some (.bool true, rest)
    | 'f' :: 'a' :: 'l' :: 's' :: 'e' :: rest => some (.bool false, rest)
    | '"' :: rest => (scanString rest).map fun (raw, rest) => (.string raw, rest)
    | '[' :: rest =>
      match skipGaps rest with
      | ']' :: rest => some (.array [], rest)
      | rest => (scanItems fuel rest).map fun (items, rest) => (.array items, rest)
    | '\x7b' :: rest =>
      match skipGaps rest with
      | '\x7d' :: rest => some (.object [], rest)
      | rest => (scanFields fuel rest).map fun (fields, rest) => (.object fields, rest)
    | text => (scanNumeral? text).map fun (numeral, rest) => (.number numeral, rest)

def scanItems : Nat → List Char → Option (List Source × List Char)
  | 0, _ => none
  | fuel + 1, text =>
    match scanValue fuel text with
    | none => none
    | some (item, rest) =>
      match skipGaps rest with
      | ']' :: rest => some ([item], rest)
      | ',' :: rest =>
        (scanItems fuel (skipGaps rest)).map fun (items, rest) => (item :: items, rest)
      | _ => none

def scanFields : Nat → List Char → Option (List (List Char × Source) × List Char)
  | 0, _ => none
  | fuel + 1, text =>
    match text with
    | '"' :: rest =>
      match scanString rest with
      | none => none
      | some (key, rest) =>
        match skipGaps rest with
        | ':' :: rest =>
          match scanValue fuel (skipGaps rest) with
          | none => none
          | some (value, rest) =>
            match skipGaps rest with
            | '\x7d' :: rest => some ([(key, value)], rest)
            | ',' :: rest =>
              (scanFields fuel (skipGaps rest)).map fun (fields, rest) =>
                ((key, value) :: fields, rest)
            | _ => none
        | _ => none
    | _ => none

end

/-- The syntax tree of a text that holds one value and nothing else but gaps. Each call of a
scanner consumes a character or directly precedes one that does, which bounds their number. -/
def Source.ofText? (text : List Char) : Option Source :=
  match scanValue (2 * text.length + 1) (skipGaps text) with
  | some (value, rest) => if skipGaps rest = [] then some value else none
  | none => none

end ExportKit.Json
