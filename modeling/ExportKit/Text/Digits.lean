/-!
Natural numbers as decimal digits. Reading accepts any non-empty run of ASCII digits, leading
zeros included, and gives back every written number.
-/
namespace ExportKit.Digits

/-- The decimal digits of a number, without leading zeros. -/
def write (n : Nat) : List Char := Nat.toDigits 10 n

/-- The number that a non-empty run of ASCII digits stands for. -/
def read? (text : List Char) : Option Nat :=
  if text ≠ [] ∧ text.all Char.isDigit then some (Nat.ofDigitChars 10 text 0) else none

theorem write_ne_nil (n : Nat) : write n ≠ [] := Nat.toDigits_ne_nil

theorem all_isDigit_write (n : Nat) : (write n).all Char.isDigit := by
  rw [List.all_eq_true]
  exact fun _ h => Nat.isDigit_of_mem_toDigits (by decide) (by decide) h

@[simp] theorem read?_write (n : Nat) : read? (write n) = some n := by
  rw [read?, if_pos ⟨write_ne_nil n, all_isDigit_write n⟩, write,
    Nat.ofDigitChars_toDigits (by decide) (by decide)]

/-- The 64-bit number that a non-empty run of ASCII digits stands for. -/
def readUInt64? (text : List Char) : Option UInt64 :=
  (read? text).bind fun n => if n < UInt64.size then some (UInt64.ofNat n) else none

theorem readUInt64?_write (n : UInt64) : readUInt64? (write n.toNat) = some n := by
  simp [readUInt64?, UInt64.toNat_lt_size n]

/-- The decimal digits of an integer, after a minus sign if it is negative. -/
def writeInt (n : Int) : List Char :=
  if n < 0 then '-' :: write n.natAbs else write n.natAbs

end ExportKit.Digits
