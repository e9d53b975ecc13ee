/-!
UTF-8 between characters and bytes. `decode?` accepts exactly well-formed byte sequences, and
`decodeLossy` shows any byte sequence as text, with one replacement character for each maximal
ill-formed run.
-/
namespace ExportKit.Utf8

/-- The bytes of a text, character by character. -/
def encode (text : List Char) : List UInt8 :=
  text.flatMap String.utf8EncodeChar

@[simp] theorem encode_nil : encode [] = [] := rfl

@[simp] theorem encode_cons (c : Char) (text : List Char) :
    encode (c :: text) = String.utf8EncodeChar c ++ encode text := rfl

@[simp] theorem encode_append (left right : List Char) :
    encode (left ++ right) = encode left ++ encode right := by
  simp [encode]

/-- The six payload bits of a continuation byte, or `none` for any other byte. -/
def continuation? (low high : Nat) (byte : UInt8) : Option Nat :=
  if low ≤ byte.toNat ∧ byte.toNat ≤ high then some (byte.toNat % 64) else none

/-- Reads `count` continuation bytes onto the payload `value`. The first of them lies between
`low` and `high`, later ones anywhere between 128 and 191. The remaining bytes are those after
the character, or after the ill-formed run when no character could be completed. -/
def finish (value : Nat) : Nat → Nat → Nat → List UInt8 → Option Char × List UInt8
  | 0, _, _, bytes => (some (Char.ofNat value), bytes)
  | _ + 1, _, _, [] => (none, [])
  | count + 1, low, high, byte :: bytes =>
    match continuation? low high byte with
    | some bits => finish (value * 64 + bits) count 128 191 bytes
    | none => (none, byte :: bytes)

/-- Takes one character off the front of `lead :: bytes`. The table of lead bytes excludes
overlong forms, surrogates and values above the last code point. -/
def step (lead : UInt8) (bytes : List UInt8) : Option Char × List UInt8 :=
  let n := lead.toNat
  if n < 128 then (some (Char.ofNat n), bytes)
  else if n < 194 then (none, bytes)
  else if n < 224 then finish (n - 192) 1 128 191 bytes
  else if n = 224 then finish 0 2 160 191 bytes
  else if n = 237 then finish 13 2 128 159 bytes
  else if n < 240 then finish (n - 224) 2 128 191 bytes
  else if n = 240 then finish 0 3 144 191 bytes
  else if n < 244 then finish (n - 240) 3 128 191 bytes
  else if n = 244 then finish 4 3 128 143 bytes
  else (none, bytes)

theorem length_finish_le (value count low high : Nat) (bytes : List UInt8) :
    (finish value count low high bytes).2.length ≤ bytes.length := by
  induction count generalizing value low high bytes with
  | zero => simp [finish]
  | succ count ih =>
    cases bytes with
    | nil => simp [finish]
    | cons byte bytes =>
      unfold finish
      split
      · exact Nat.le_succ_of_le (ih _ _ _ _)
      · exact Nat.le_refl _

theorem length_step_le (lead : UInt8) (bytes : List UInt8) :
    (step lead bytes).2.length ≤ bytes.length := by
  simp only [step]
  repeat' split
  all_goals first | exact Nat.le_refl _ | exact length_finish_le ..

/-- Each character of the bytes in turn, `none` standing for an ill-formed run. -/
def pieces : List UInt8 → List (Option Char)
  | [] => []
  | lead :: bytes => (step lead bytes).1 :: pieces (step lead bytes).2
termination_by bytes => bytes.length
decreasing_by
  have := length_step_le lead bytes
  simp only [List.length_cons]
  omega

/-- The text of a well-formed byte sequence. -/
def decode? (bytes : List UInt8) : Option (List Char) :=
  (pieces bytes).mapM id

/-- The text of any byte sequence, each ill-formed run shown as the replacement character. -/
def decodeLossy (bytes : List UInt8) : List Char :=
  (pieces bytes).map (·.getD '\ufffd')

end ExportKit.Utf8
