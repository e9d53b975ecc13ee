/-!
Base64 with the standard alphabet and padding. `decode?` accepts exactly what `encode` writes,
and `encodeLines` breaks the digits into lines of at most 76 characters.
-/
namespace ExportKit.Base64

/-- The 64 digits in order of their values. -/
def alphabet : List Char :=
  "ABCDEFGHIJKLMNOPQRSTUVWXYZabcdefghijklmnopqrstuvwxyz0123456789+/".toList

def digit (value : Nat) : Char := alphabet.getD value '='

def value? (c : Char) : Option Nat := alphabet.findIdx? (· = c)

/-- Three bytes become four digits; a last group of one or two bytes is padded with `=`. -/
def encode : List UInt8 → List Char
  | [] => []
  | [a] => [digit (a.toNat / 4), digit (a.toNat % 4 * 16), '=', '=']
  | [a, b] =>
    [digit (a.toNat / 4), digit (a.toNat % 4 * 16 + b.toNat / 16), digit (b.toNat % 16 * 4), '=']
  | a :: b :: c :: rest =>
    digit (a.toNat / 4) :: digit (a.toNat % 4 * 16 + b.toNat / 16) ::
      digit (b.toNat % 16 * 4 + c.toNat / 64) :: digit (c.toNat % 64) :: encode rest

/-- The bytes of a padded base64 text. Padding stands only at the end, and the bits that it
cuts off are zero. -/
def decode? : List Char → Option (List UInt8)
  | [] => some []
  | w :: x :: y :: z :: rest => do
    let a ← value? w
    let b ← value? x
    let first := UInt8.ofNat (a * 4 + b / 16)
    if y = '=' then
      if z = '=' ∧ rest = [] ∧ b % 16 = 0 then some [first] else none
    else
      let c ← value? y
      let second := UInt8.ofNat (b % 16 * 16 + c / 4)
      if z = '=' then
        if rest = [] ∧ c % 4 = 0 then some [first, second] else none
      else
        let d ← value? z
        let more ← decode? rest
        some (first :: second :: UInt8.ofNat (c % 4 * 64 + d) :: more)
  | _ => none

/-- The longest line of encoded text. -/
def lineLength : Nat := 76

/-- A text in lines of `width` characters, of which only the last may be shorter. -/
def wrap (width : Nat) (text : List Char) : List (List Char) :=
  if width = 0 ∨ text = [] then []
  else text.take width :: wrap width (text.drop width)
termination_by text.length
decreasing_by
  rename_i h
  have : 0 < text.length := List.length_pos_iff.2 fun empty => h (.inr empty)
  simp only [List.length_drop]
  omega

def lines (bytes : List UInt8) : List (List Char) := wrap lineLength (encode bytes)

/-- Encoded text in lines, each ended by a line feed; no bytes give no line. -/
def encodeLines (bytes : List UInt8) : List Char :=
  (lines bytes).flatMap (· ++ ['\n'])

end ExportKit.Base64
