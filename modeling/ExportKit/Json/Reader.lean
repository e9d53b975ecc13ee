import ExportKit.Json.Basic
import ExportKit.Json.Numeral
import ExportKit.Text.Digits

/-!
Typed reading of JSON. A reader turns a syntax tree into a value or refuses it; it carries the
number of list and object levels that may still be opened, which only skipped fields may exceed.

A record is an object with the declared fields in any order, or a list of all of them in the
declared order. Fields that are not declared are skipped, and a declared one may not occur twice.
-/
namespace ExportKit.Json

/-- How many levels of lists and objects a document may open. -/
def maxDepth : Nat := 127

/-- Reads a value out of a syntax tree, given how many levels may still be opened. -/
abbrev Reader (α : Type) := Nat → Source → Option α

def hexValue (c : Char) : Nat :=
  if c.isDigit then c.toNat - '0'.toNat
  else if 'a' ≤ c then c.toNat - 'a'.toNat + 10
  else c.toNat - 'A'.toNat + 10

def hexUnit (a b c d : Char) : Nat :=
  ((hexValue a * 16 + hexValue b) * 16 + hexValue c) * 16 + hexValue d

/-- The character that a backslash and a letter stand for. -/
def shortEscape (c : Char) : Char :=
  if c = 'b' then '\x08'
  else if c = 'f' then '\x0c'
  else if c = 'n' then '\n'
  else if c = 'r' then '\r'
  else if c = 't' then '\t'
  else c

/-- The text of a string as written. Surrogates are accepted in pairs only. -/
def unescape? : List Char → Option (List Char)
  | [] => some []
  | '\\' :: 'u' :: a :: b :: c :: d :: rest =>
    let unit := hexUnit a b c d
    if 0xD800 ≤ unit ∧ unit < 0xDC00 then
      match rest with
      | '\\' :: 'u' :: e :: f :: g :: h :: rest =>
        let low := hexUnit e f g h
        if 0xDC00 ≤ low ∧ low < 0xE000 then
          (unescape? rest).map
            (Char.ofNat (0x10000 + (unit - 0xD800) * 0x400 + (low - 0xDC00)) :: ·)
        else none
      | _ => none
    else if 0xDC00 ≤ unit ∧ unit < 0xE000 then none
    else (unescape? rest).map (Char.ofNat unit :: ·)
  | '\\' :: c :: rest => (unescape? rest).map (shortEscape c :: ·)
  | c :: rest => (unescape? rest).map (c :: ·)

namespace Reader

def string : Reader String
  | _, .string raw => (unescape? raw).map String.ofList
  | _, _ => none

def bool : Reader Bool
  | _, .bool value => some value
  | _, _ => none

def int : Reader Int
  | _, .number numeral => numeral.int?
  | _, _ => none

/-- An integer between two bounds, both included. -/
def intWithin (low high : Int) : Reader Int := fun depth source => do
  let value ← int depth source
  if low ≤ value ∧ value ≤ high then some value else none

def uint8 : Reader UInt8 := fun depth source =>
  (intWithin 0 (UInt8.size - 1) depth source).map fun value => UInt8.ofNat value.toNat

def uint64 : Reader UInt64 := fun depth source =>
  (intWithin 0 (UInt64.size - 1) depth source).map fun value => UInt64.ofNat value.toNat

def int32 : Reader Int32 := fun depth source =>
  (intWithin Int32.minValue.toInt Int32.maxValue.toInt depth source).map Int32.ofInt

def int64 : Reader Int64 := fun depth source =>
  (intWithin Int64.minValue.toInt Int64.maxValue.toInt depth source).map Int64.ofInt

/-- An unsigned integer of 64 bits that is written as a string of digits, after an optional
plus sign. -/
def countText : Reader UInt64 := fun depth source => do
  let text := (← string depth source).toList
  match text with
  | '+' :: digits => Digits.readUInt64? digits
  | digits => Digits.readUInt64? digits

def nullable {α : Type} (reader : Reader α) : Reader (Option α)
  | _, .null => some none
  | depth, source => (reader depth source).map some

def list {α : Type} (item : Reader α) : Reader (List α)
  | depth + 1, .array items => items.mapM (item depth)
  | _, _ => none

/-- One of several words, as a string or as an object whose only field is the word with null. -/
def word {α : Type} (words : List (String × α)) : Reader α
  | _, .string raw => do words.lookup (String.ofList (← unescape? raw))
  | _ + 1, .object [(raw, .null)] => do words.lookup (String.ofList (← unescape? raw))
  | _, _ => none

/-- A map with texts as keys. Of several fields with one key the last counts. -/
def textMap {α : Type} (value : Reader α) : Reader (SortedMap String α)
  | depth + 1, .object fields => do
    let entries ← fields.mapM fun (raw, source) => do
      some (String.ofList (← unescape? raw), ← value depth source)
    some (SortedMap.ofList entries)
  | _, _ => none

/-- A key that is an integer of 32 bits. It is written as a number is, without escapes. -/
def int32Key? (raw : List Char) : Option Int32 :=
  match scanNumeral? raw with
  | some (numeral, []) => int32 0 (.number numeral)
  | _ => none

/-- A map with 32-bit integers as keys. Of several fields with one key the last counts. -/
def int32Map {α : Type} (value : Reader α) : Reader (SortedMap Int32 α)
  | depth + 1, .object fields => do
    let entries ← fields.mapM fun (raw, source) => do
      some (← int32Key? raw, ← value depth source)
    some (SortedMap.ofList entries)
  | _, _ => none

/-- A number without a schema: an integer if it fits in 64 bits, and otherwise a finite
double. -/
def freeNumber (numeral : Numeral) : Option FreeJson :=
  let asDouble : Option FreeJson :=
    if finite : numeral.double.isFinite then some (.double numeral.double finite) else none
  match numeral.int? with
  | some value =>
    if fits : Int64.minValue.toInt ≤ value ∧ value < UInt64.size then
      some (.int value fits.1 fits.2)
    else asDouble
  | none => asDouble

/-- A value without a schema. -/
def free : Reader FreeJson
  | _, .null => some .null
  | _, .bool value => some (.bool value)
  | _, .number numeral => freeNumber numeral
  | _, .string raw => (unescape? raw).map fun text => .string (String.ofList text)
  | depth + 1, .array items => (items.mapM (free depth)).map .array
  | depth + 1, .object fields => do
    let entries ← fields.mapM fun (raw, source) => do
      some (String.ofList (← unescape? raw), ← free depth source)
    some (.object (SortedMap.ofList entries))
  | 0, _ => none

/-- What an object holds for the declared field `name`: nothing, or one value. -/
def field? (fields : List (List Char × Source)) (name : String) : Option (Option Source) :=
  match fields.filter fun entry => entry.1 = name.toList with
  | [] => some none
  | [(_, value)] => some (some value)
  | _ => none

/-- What a record holds for each of its declared fields, in the declared order, and the number
of levels that may be opened within it. -/
def record (names : List String) : Reader (Nat × List (Option Source))
  | depth + 1, .object fields => do
    let fields ← fields.mapM fun (raw, source) => do some (← unescape? raw, source)
    some (depth, ← names.mapM (field? fields))
  | depth + 1, .array items =>
    if items.length = names.length then some (depth, items.map some) else none
  | _, _ => none

def required {α : Type} (reader : Reader α) (depth : Nat) : Option Source → Option α
  | some source => reader depth source
  | none => none

/-- The value of a field that counts as null when it is absent. -/
def optional {α : Type} (reader : Reader α) (depth : Nat) : Option Source → Option (Option α)
  | some source => nullable reader depth source
  | none => some none

/-- The value of a whole document. -/
def run? {α : Type} (reader : Reader α) (text : String) : Option α :=
  (Source.ofText? text.toList).bind (reader maxDepth)

end Reader

end ExportKit.Json
