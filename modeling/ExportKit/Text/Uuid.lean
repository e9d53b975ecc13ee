/-!
Universally unique identifiers: 32 hexadecimal digits, written in lower case in groups of 8, 4, 4,
4 and 12. Reading also accepts the digits without hyphens, braces around the hyphenated form, a
`urn:uuid:` before it, and letters of either case throughout.
-/
namespace ExportKit

/-- An identifier of 128 bits as its hexadecimal digits. -/
structure Uuid where
  digits : Vector (Fin 16) 32
  deriving DecidableEq

namespace Uuid

instance : Inhabited Uuid := ⟨⟨Vector.replicate 32 0⟩⟩

/-- The hexadecimal digit that a random byte stands for. -/
def digitOfByte (byte : UInt8) : Fin 16 := Fin.ofNat 16 byte.toNat

def digitChar (digit : Fin 16) : Char := "0123456789abcdef".toList.getD digit.val '0'

/-- The value of a hexadecimal digit of either case. -/
def digit? (c : Char) : Option (Fin 16) :=
  (List.finRange 16).find? fun digit => digitChar digit = c || digitChar digit = c.toLower

def chars (uuid : Uuid) : List Char :=
  let digits := uuid.digits.toList.map digitChar
  digits.take 8 ++ '-' :: ((digits.drop 8).take 4 ++ '-' :: ((digits.drop 12).take 4 ++
    '-' :: ((digits.drop 16).take 4 ++ '-' :: digits.drop 20)))

def text (uuid : Uuid) : String := String.ofList uuid.chars

/-- The digits of an identifier without hyphens. -/
def hex (uuid : Uuid) : String := String.ofList (uuid.digits.toList.map digitChar)

/-- The identifier of random digits. Two of them say that it is one. -/
def ofRandom (digits : Vector (Fin 16) 32) : Uuid :=
  ⟨(digits.set 12 4).set 16 (Fin.ofNat 16 (8 + digits[16].val % 4))⟩

/-- The identifier with exactly these digits. -/
def ofDigits? (text : List Char) : Option Uuid := do
  let digits ← text.mapM digit?
  if h : digits.length = 32 then some ⟨⟨digits.toArray, by simpa using h⟩⟩ else none

/-- The identifier of a hyphenated text. -/
def ofHyphenated? (text : List Char) : Option Uuid :=
  if text[8]? = some '-' ∧ text[13]? = some '-' ∧ text[18]? = some '-' ∧ text[23]? = some '-' then
    ofDigits? (text.take 8 ++ (text.drop 9).take 4 ++ (text.drop 14).take 4 ++
      (text.drop 19).take 4 ++ text.drop 24)
  else none

/-- The identifier that a text stands for, in any of the accepted forms. -/
def ofChars? (text : List Char) : Option Uuid :=
  if text.length = 32 then ofDigits? text
  else if text.length = 36 then ofHyphenated? text
  else if text.length = 38 ∧ text.head? = some '\x7b' ∧ text.getLast? = some '\x7d' then
    ofHyphenated? (text.drop 1).dropLast
  else if text.length = 45 ∧ (text.take 9).map Char.toLower = "urn:uuid:".toList then
    ofHyphenated? (text.drop 9)
  else none

end Uuid

end ExportKit
