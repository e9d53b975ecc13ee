import ExportKit.Mail.Header

/-!
The parameter that names an attached file. A name of printable ASCII without quotes and
backslashes stands in quotes; any other is percent-encoded in the extended form of the parameter.
-/
namespace ExportKit.Mail.Filename

/-- Whether a character may stand between the quotes of the plain form. -/
def isQuotable (c : Char) : Bool := Header.isPlain c && c ≠ '"' && c ≠ '\\'

/-- Whether a character stands for itself in the extended form. -/
def isAttribute (c : Char) : Bool :=
  c.isAlphanum || "!#$&+-.^_\x60|~".toList.contains c

/-- The hexadecimal digit of a value below 16, in upper case. -/
def hexDigit (n : Nat) : Char := "0123456789ABCDEF".toList.getD n '0'

def encodeByte (byte : UInt8) : List Char :=
  let c := Char.ofNat byte.toNat
  if isAttribute c then [c] else ['%', hexDigit (byte.toNat / 16), hexDigit (byte.toNat % 16)]

def parameter (name : List Char) : List Char :=
  if name.all isQuotable then "filename=\"".toList ++ name ++ ['"']
  else "filename*=utf-8''".toList ++ (Utf8.encode name).flatMap encodeByte

end ExportKit.Mail.Filename
