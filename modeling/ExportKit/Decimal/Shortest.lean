/-!
The shortest decimal of a floating-point number: of all decimals that read back as the number,
one with the fewest digits, and of those the nearest one.
-/
namespace ExportKit.Decimal

/-- The number `digits · 10 ^ exponent`. -/
structure Scientific where
  digits : Nat
  exponent : Int
  deriving DecidableEq, Repr

/-- The real numbers that round to one floating-point number, over the denominator `den`: from
`low` to `high` around `value`, with both ends if `closed`. -/
structure Rounding where
  low : Nat
  value : Nat
  high : Nat
  den : Nat
  closed : Bool

/-- The magnitude of a finite number as `mantissa · 2 ^ exponent`, and whether the next smaller
magnitude is only half as far away as the next larger one. -/
def binary (x : Float) : Nat × Int × Bool :=
  let bits : Nat := x.toBits.toNat
  let leading : Nat := 1 <<< 52
  let biased : Nat := bits / leading % 2048
  let fraction : Nat := bits % leading
  if biased = 0 then (fraction, -1074, false)
  else (fraction + leading, (biased : Int) - 1075, decide (fraction = 0 ∧ biased ≠ 1))

/-- What rounds to the magnitude of a finite number. The ends round to it as well exactly if
its mantissa is even. -/
def rounding (x : Float) : Rounding :=
  let (mantissa, exponent, halved) := binary x
  let scale := 1 <<< (exponent - 2).toNat
  { low := (4 * mantissa - if halved then 1 else 2) * scale
    value := 4 * mantissa * scale
    high := (4 * mantissa + 2) * scale
    den := 1 <<< (2 - exponent).toNat
    closed := mantissa % 2 = 0 }

/-- The exponent of the leading digit of `num / den`, for `num` and `den` positive. -/
def magnitude (num den : Nat) : Int :=
  if den ≤ num then (Nat.toDigits 10 (num / den)).length - 1
  else -((Nat.toDigits 10 ((den - 1) / num)).length : Int)

/-- The nearest point of the grid of multiples of `10 ^ exponent` that rounds to the number.
Only the two neighbours of the value can do so, and of two equally near ones the even is taken. -/
def Rounding.onGrid? (r : Rounding) (exponent : Int) : Option Nat :=
  let up := Nat.pow 10 (-exponent).toNat
  let den := r.den * Nat.pow 10 exponent.toNat
  let inside (d : Nat) : Bool :=
    if r.closed then r.low * up ≤ d * den && d * den ≤ r.high * up
    else r.low * up < d * den && d * den < r.high * up
  let below := r.value * up / den
  let left := r.value * up - below * den
  let right := (below + 1) * den - r.value * up
  match inside below, inside (below + 1) with
  | true, true =>
    some (if left < right ∨ left = right ∧ below % 2 = 0 then below else below + 1)
  | true, false => some below
  | false, true => some (below + 1)
  | false, false => none

/-- The same number without trailing zeros among the digits; `fuel` bounds their count. -/
def Scientific.strip : Nat → Scientific → Scientific
  | 0, s => s
  | fuel + 1, s =>
    if s.digits ≠ 0 ∧ s.digits % 10 = 0 then strip fuel ⟨s.digits / 10, s.exponent + 1⟩ else s

/-- The shortest decimal of the magnitude of a finite number; that of zero has the digit 0.
Seventeen digits always suffice. -/
def shortest (x : Float) : Scientific :=
  let r := rounding x
  if r.value = 0 then ⟨0, 0⟩
  else
    let top := magnitude r.value r.den
    let found := (List.range 17).findSome? fun (n : Nat) =>
      (r.onGrid? (top - n)).map fun digits => Scientific.mk digits (top - n)
    (found.getD ⟨0, 0⟩).strip 17

end ExportKit.Decimal
