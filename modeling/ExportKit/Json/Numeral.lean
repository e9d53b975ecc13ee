import ExportKit.Json.Source

/-!
What a written number stands for. An integer has neither point nor exponent, and minus zero is
none; any other number is a double.

A double is not the nearest one to the written decimal. Its leading digits, as many as fit in 64
bits, are rounded to a double, which is then multiplied or divided by a power of ten.
-/
namespace ExportKit.Json.Numeral

/-- The integer that a number stands for, if it is written as one. -/
def int? (numeral : Numeral) : Option Int :=
  let magnitude := Nat.ofDigitChars 10 numeral.whole 0
  if numeral.fraction ≠ [] ∨ numeral.exponent ≠ none then none
  else if numeral.negative then if magnitude = 0 then none else some (-magnitude)
  else some magnitude

/-- Appends digits to a number for as long as it fits in 64 bits; the digits left over follow. -/
def appendDigits (number : Nat) : List Char → Nat × List Char
  | [] => (number, [])
  | c :: rest =>
    let next := 10 * number + (c.toNat - '0'.toNat)
    if next < UInt64.size then appendDigits next rest else (number, c :: rest)

/-- The leading digits of a number, and the power of ten that they are to be multiplied by. -/
def significand (numeral : Numeral) : Nat × Int :=
  let (whole, wholeLeft) := appendDigits 0 numeral.whole
  let (number, fractionLeft) := appendDigits whole numeral.fraction
  let shift : Int :=
    match numeral.exponent with
    | some (true, digits) => -(Nat.ofDigitChars 10 digits 0 : Int)
    | some (false, digits) => Nat.ofDigitChars 10 digits 0
    | none => 0
  (number, wholeLeft.length - (numeral.fraction.length - fractionLeft.length : Nat) + shift)

def powerOfTen (exponent : Nat) : Float := Float.ofScientific 1 false exponent

/-- Divides by a power of ten, in steps that a double can hold. -/
def divide (x : Float) (exponent : Nat) : Float :=
  if exponent ≤ 308 then x / powerOfTen exponent
  else if x == 0 then x
  else divide (x / powerOfTen 308) (exponent - 308)
termination_by exponent

/-- The double that a number stands for. It is infinite if the number is too large. -/
def double (numeral : Numeral) : Float :=
  let (number, exponent) := numeral.significand
  let leading := (UInt64.ofNat number).toFloat
  let magnitude :=
    match exponent with
    | .ofNat up => if up ≤ 308 ∨ number = 0 then leading * powerOfTen (min up 308) else 1 / 0
    | .negSucc down => divide leading (down + 1)
  if numeral.negative then -magnitude else magnitude

end ExportKit.Json.Numeral
