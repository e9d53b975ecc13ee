import ExportKit.Decimal.Shortest
import ExportKit.Text.Digits

/-!
How JSON text writes a number that is not an integer: the shortest decimal that reads back,
positional while its point lies within the first sixteen digits and at most four zeros follow
the point, and with a signed exponent otherwise. A positional number always has a point.
-/
namespace ExportKit.Json

def doubleText (x : Float) : List Char :=
  let ⟨number, exponent⟩ := Decimal.shortest x
  let digits := Digits.write number
  let count : Int := digits.length
  let point := count + exponent
  let zeros (n : Int) : List Char := List.replicate n.toNat '0'
  let body :=
    if 0 ≤ exponent ∧ point ≤ 16 then digits ++ zeros exponent ++ ['.', '0']
    else if 0 < point ∧ point ≤ 16 then
      digits.take point.toNat ++ '.' :: digits.drop point.toNat
    else if -5 < point ∧ point ≤ 0 then '0' :: '.' :: (zeros (-point) ++ digits)
    else
      digits.take 1 ++ (if digits.length = 1 then [] else '.' :: digits.drop 1) ++
        'e' :: ((if 0 < point then ['+'] else []) ++ Digits.writeInt (point - 1))
  if x.toBits.toNat.testBit 63 then '-' :: body else body

end ExportKit.Json
