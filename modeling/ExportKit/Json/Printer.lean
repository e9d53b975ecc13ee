import ExportKit.Json.Basic
import ExportKit.Json.Double

/-!
JSON text, compact or laid out with an indent of two spaces. Strings escape only the quote, the
backslash and control characters.
-/
namespace ExportKit.Json

def hexDigit (n : Nat) : Char := "0123456789abcdef".toList.getD n '0'

def escapeChar (c : Char) : List Char :=
  if c = '"' then ['\\', '"']
  else if c = '\\' then ['\\', '\\']
  else if c = '\n' then ['\\', 'n']
  else if c = '\r' then ['\\', 'r']
  else if c = '\t' then ['\\', 't']
  else if c = '\x08' then ['\\', 'b']
  else if c = '\x0c' then ['\\', 'f']
  else if c.toNat < 32 then
    ['\\', 'u', '0', '0', hexDigit (c.toNat / 16), hexDigit (c.toNat % 16)]
  else [c]

/-- A text as a JSON string, quotes included. -/
def quote (text : List Char) : List Char :=
  '"' :: (text.flatMap escapeChar ++ ['"'])

/-- A value that is neither a list nor an object. -/
def scalarText : Json → List Char
  | .null => "null".toList
  | .bool true => "true".toList
  | .bool false => "false".toList
  | .int value => Digits.writeInt value
  | .double value => doubleText value
  | .string value => quote value.toList
  | .array _ => []
  | .object _ => []

mutual

def compactChars : Json → List Char
  | .array items => '[' :: (compactItems items ++ [']'])
  | .object fields => '\x7b' :: (compactFields fields ++ ['\x7d'])
  | value => scalarText value

def compactItems : List Json → List Char
  | [] => []
  | [item] => compactChars item
  | item :: rest => compactChars item ++ ',' :: compactItems rest

def compactFields : List (String × Json) → List Char
  | [] => []
  | [(key, value)] => quote key.toList ++ ':' :: compactChars value
  | (key, value) :: rest =>
    quote key.toList ++ ':' :: (compactChars value ++ ',' :: compactFields rest)

end

def newline (depth : Nat) : List Char := '\n' :: List.replicate (2 * depth) ' '

mutual

/-- The text of a value at a given depth, each item and field on a line of its own. -/
def prettyChars (depth : Nat) : Json → List Char
  | .array [] => ['[', ']']
  | .array (item :: rest) =>
    '[' :: (prettyItems (depth + 1) (item :: rest) ++ newline depth ++ [']'])
  | .object [] => ['\x7b', '\x7d']
  | .object (field :: rest) =>
    '\x7b' :: (prettyFields (depth + 1) (field :: rest) ++ newline depth ++ ['\x7d'])
  | value => scalarText value

/-- Items on lines of their own, with a comma after all but the last. -/
def prettyItems (depth : Nat) : List Json → List Char
  | [] => []
  | [item] => newline depth ++ prettyChars depth item
  | item :: rest => newline depth ++ prettyChars depth item ++ ',' :: prettyItems depth rest

def prettyFields (depth : Nat) : List (String × Json) → List Char
  | [] => []
  | [(key, value)] =>
    newline depth ++ quote key.toList ++ ':' :: ' ' :: prettyChars depth value
  | (key, value) :: rest =>
    newline depth ++ quote key.toList ++ ':' :: ' ' :: prettyChars depth value ++
      ',' :: prettyFields depth rest

end

def compact (value : Json) : String := String.ofList value.compactChars

/-- The text of a value with an indent of two spaces, without a final line feed. -/
def pretty (value : Json) : String := String.ofList (value.prettyChars 0)

end ExportKit.Json
