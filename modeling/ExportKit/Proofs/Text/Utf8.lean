import ExportKit.Text.Utf8

/-!
Decoding and encoding are inverse to each other: every text is read back from its bytes, and bytes
that are read as a text are the bytes of that text.
-/
namespace ExportKit.Utf8

/-- A continuation byte within its bounds adds six bits. -/
theorem finish_cons {value count low high : Nat} {byte : UInt8} (bytes : List UInt8)
    (hLow : low ≤ byte.toNat) (hHigh : byte.toNat ≤ high) :
    finish value (count + 1) low high (byte :: bytes) =
      finish (value * 64 + byte.toNat % 64) count 128 191 bytes := by
  simp [finish, continuation?, hLow, hHigh]

/-- A character that needs more bytes takes the next one, which lies within the bounds. -/
theorem eq_cons_of_finish {value count low high : Nat} {bytes rest : List UInt8} {c : Char}
    (h : finish value (count + 1) low high bytes = (some c, rest)) :
    ∃ byte tail, bytes = byte :: tail ∧ low ≤ byte.toNat ∧ byte.toNat ≤ high ∧
      finish (value * 64 + byte.toNat % 64) count 128 191 tail = (some c, rest) := by
  cases bytes with
  | nil => simp [finish] at h
  | cons byte tail =>
      by_cases hByte : low ≤ byte.toNat ∧ byte.toNat ≤ high
      · rw [finish_cons tail hByte.1 hByte.2] at h
        exact ⟨byte, tail, rfl, hByte.1, hByte.2, h⟩
      · simp [finish, continuation?, hByte] at h

/-- A byte below 128 is a character. -/
theorem step_one {lead : UInt8} (bytes : List UInt8) (h : lead.toNat < 128) :
    step lead bytes = (some (Char.ofNat lead.toNat), bytes) := by
  simp [step, h]

/-- Two bytes make a character if the first announces one more. -/
theorem step_two {lead x : UInt8} (bytes : List UInt8) (hLead : 194 ≤ lead.toNat)
    (hLead' : lead.toNat < 224) (hx : 128 ≤ x.toNat) (hx' : x.toNat ≤ 191) :
    step lead (x :: bytes) =
      (some (Char.ofNat ((lead.toNat - 192) * 64 + x.toNat % 64)), bytes) := by
  simp only [step]
  rw [if_neg (by omega), if_neg (by omega), if_pos hLead', finish_cons bytes hx hx', finish]

/-- The lower bound on the second byte excludes overlong forms, and the upper bound surrogates. -/
theorem step_three {lead x y : UInt8} (bytes : List UInt8) (hLead : 224 ≤ lead.toNat)
    (hLead' : lead.toNat < 240) (hx : 128 ≤ x.toNat) (hx' : x.toNat ≤ 191)
    (hOverlong : lead.toNat = 224 → 160 ≤ x.toNat)
    (hSurrogate : lead.toNat = 237 → x.toNat ≤ 159) (hy : 128 ≤ y.toNat) (hy' : y.toNat ≤ 191) :
    step lead (x :: y :: bytes) =
      (some (Char.ofNat (((lead.toNat - 224) * 64 + x.toNat % 64) * 64 + y.toNat % 64)),
        bytes) := by
  simp only [step]
  rw [if_neg (by omega), if_neg (by omega), if_neg (by omega)]
  by_cases h224 : lead.toNat = 224
  · rw [if_pos h224, finish_cons _ (hOverlong h224) hx', finish_cons _ hy hy', finish, h224]
  rw [if_neg h224]
  by_cases h237 : lead.toNat = 237
  · rw [if_pos h237, finish_cons _ hx (hSurrogate h237), finish_cons _ hy hy', finish, h237]
  rw [if_neg h237, if_pos hLead', finish_cons _ hx hx', finish_cons _ hy hy', finish]

/-- Four bytes make a character, but for those above the last code point and the overlong ones. -/
theorem step_four {lead x y z : UInt8} (bytes : List UInt8) (hLead : 240 ≤ lead.toNat)
    (hLead' : lead.toNat < 245) (hx : 128 ≤ x.toNat) (hx' : x.toNat ≤ 191)
    (hOverlong : lead.toNat = 240 → 144 ≤ x.toNat)
    (hLast : lead.toNat = 244 → x.toNat ≤ 143) (hy : 128 ≤ y.toNat) (hy' : y.toNat ≤ 191)
    (hz : 128 ≤ z.toNat) (hz' : z.toNat ≤ 191) :
    step lead (x :: y :: z :: bytes) =
      (some (Char.ofNat ((((lead.toNat - 240) * 64 + x.toNat % 64) * 64 + y.toNat % 64) * 64 +
        z.toNat % 64)), bytes) := by
  simp only [step]
  rw [if_neg (by omega), if_neg (by omega), if_neg (by omega), if_neg (by omega),
    if_neg (by omega), if_neg (by omega)]
  by_cases h240 : lead.toNat = 240
  · rw [if_pos h240, finish_cons _ (hOverlong h240) hx', finish_cons _ hy hy',
      finish_cons _ hz hz', finish, h240]
  rw [if_neg h240]
  by_cases h244 : lead.toNat = 244
  · rw [if_neg (by omega), if_pos h244, finish_cons _ hx (hLast h244), finish_cons _ hy hy',
      finish_cons _ hz hz', finish, h244]
  rw [if_pos (by omega), finish_cons _ hx hx', finish_cons _ hy hy', finish_cons _ hz hz', finish]

/-- One character is taken off the front of bytes that begin with its own. -/
theorem exists_step_utf8EncodeChar (c : Char) (rest : List UInt8) :
    ∃ lead bytes, String.utf8EncodeChar c ++ rest = lead :: bytes ∧
      step lead bytes = (some c, rest) := by
  have hv : c.val.toNat < 0xD800 ∨ 0xDFFF < c.val.toNat ∧ c.val.toNat < 0x110000 := c.valid
  have hc : Char.ofNat c.val.toNat = c := Char.ofNat_toNat c
  simp only [String.utf8EncodeChar]
  generalize c.val.toNat = v at *
  split
  next h =>
    refine ⟨_, _, rfl, (step_one rest ?_).trans ?_⟩ <;> simp only [UInt8.toNat_ofNat']
    · omega
    · rw [← hc]
      congr 3
      omega
  next h =>
  split
  next h₂ =>
    refine ⟨_, _, rfl, (step_two rest ?_ ?_ ?_ ?_).trans ?_⟩ <;> simp only [UInt8.toNat_ofNat']
    rotate_right
    · rw [← hc]
      congr 3
      omega
    all_goals omega
  next h₂ =>
  split
  next h₃ =>
    refine ⟨_, _, rfl, (step_three rest ?_ ?_ ?_ ?_ ?_ ?_ ?_ ?_).trans ?_⟩ <;>
      simp only [UInt8.toNat_ofNat']
    rotate_right
    · rw [← hc]
      congr 3
      omega
    all_goals omega
  next h₃ =>
    refine ⟨_, _, rfl, (step_four rest ?_ ?_ ?_ ?_ ?_ ?_ ?_ ?_ ?_ ?_).trans ?_⟩ <;>
      simp only [UInt8.toNat_ofNat']
    rotate_right
    · rw [← hc]
      congr 3
      omega
    all_goals omega

/-- The bytes of a text hold its characters and nothing ill-formed. -/
theorem pieces_encode (text : List Char) : pieces (encode text) = text.map some := by
  induction text with
  | nil => simp [pieces]
  | cons c text ih =>
      obtain ⟨lead, bytes, hBytes, hStep⟩ := exists_step_utf8EncodeChar c (encode text)
      rw [encode_cons, hBytes, pieces, hStep]
      simp [ih]

/-- Every text is read back from its bytes. -/
@[simp] theorem decode?_encode (text : List Char) : decode? (encode text) = some text := by
  rw [decode?, pieces_encode, List.mapM_map]
  simpa using List.mapM_pure (m := Option) (l := text) (f := id)

/-- A text is shown as it is. -/
@[simp] theorem decodeLossy_encode (text : List Char) : decodeLossy (encode text) = text := by
  simp [decodeLossy, pieces_encode, Function.comp_def]

theorem val_ofNat {n : Nat} (h : n < 0xD800 ∨ 0xDFFF < n ∧ n < 0x110000) :
    (Char.ofNat n).val.toNat = n := by
  have hValid : n.isValidChar := h
  rw [Char.ofNat, dif_pos hValid]
  rfl

/-- Letters and digits are ASCII. -/
theorem toNat_of_isAlphanum {c : Char} (h : c.isAlphanum) :
    48 ≤ c.toNat ∧ c.toNat ≤ 57 ∨ 65 ≤ c.toNat ∧ c.toNat ≤ 90 ∨ 97 ≤ c.toNat ∧ c.toNat ≤ 122 := by
  have hCases : ((c.isUpper || c.isLower) || c.isDigit) = true := h
  rw [Bool.or_eq_true, Bool.or_eq_true] at hCases
  rcases hCases with (hUpper | hLower) | hDigit
  · obtain ⟨hLow, hHigh⟩ := of_decide_eq_true hUpper
    exact .inr (.inl ⟨UInt32.le_iff_toNat_le.mp hLow, UInt32.le_iff_toNat_le.mp hHigh⟩)
  · obtain ⟨hLow, hHigh⟩ := Bool.and_eq_true_iff.mp hLower
    exact .inr (.inr ⟨UInt32.le_iff_toNat_le.mp (of_decide_eq_true hLow),
      UInt32.le_iff_toNat_le.mp (of_decide_eq_true hHigh)⟩)
  · exact .inl (Char.isDigit_iff_toNat.mp hDigit)

theorem utf8EncodeChar_two {a x : UInt8} (hLead : 194 ≤ a.toNat) (hLead' : a.toNat < 224)
    (hx : 128 ≤ x.toNat) (hx' : x.toNat ≤ 191) :
    String.utf8EncodeChar (Char.ofNat ((a.toNat - 192) * 64 + x.toNat % 64)) = [a, x] := by
  rw [String.utf8EncodeChar, val_ofNat (by omega)]
  rw [if_neg (by omega), if_pos (by omega)]
  congr 2 <;> (apply UInt8.toNat.inj; rw [UInt8.toNat_ofNat']; omega)

theorem utf8EncodeChar_three {a x y : UInt8} (hLead : 224 ≤ a.toNat) (hLead' : a.toNat < 240)
    (hx : 128 ≤ x.toNat) (hx' : x.toNat ≤ 191) (hOverlong : a.toNat = 224 → 160 ≤ x.toNat)
    (hSurrogate : a.toNat = 237 → x.toNat ≤ 159) (hy : 128 ≤ y.toNat) (hy' : y.toNat ≤ 191) :
    String.utf8EncodeChar
      (Char.ofNat (((a.toNat - 224) * 64 + x.toNat % 64) * 64 + y.toNat % 64)) = [a, x, y] := by
  rw [String.utf8EncodeChar, val_ofNat (by omega)]
  rw [if_neg (by omega), if_neg (by omega), if_pos (by omega)]
  congr 3 <;> (apply UInt8.toNat.inj; rw [UInt8.toNat_ofNat']; omega)

theorem utf8EncodeChar_four {a x y z : UInt8} (hLead : 240 ≤ a.toNat) (hLead' : a.toNat < 245)
    (hx : 128 ≤ x.toNat) (hx' : x.toNat ≤ 191) (hOverlong : a.toNat = 240 → 144 ≤ x.toNat)
    (hLast : a.toNat = 244 → x.toNat ≤ 143) (hy : 128 ≤ y.toNat) (hy' : y.toNat ≤ 191)
    (hz : 128 ≤ z.toNat) (hz' : z.toNat ≤ 191) :
    String.utf8EncodeChar (Char.ofNat ((((a.toNat - 240) * 64 + x.toNat % 64) * 64 +
      y.toNat % 64) * 64 + z.toNat % 64)) = [a, x, y, z] := by
  rw [String.utf8EncodeChar, val_ofNat (by omega)]
  rw [if_neg (by omega), if_neg (by omega), if_neg (by omega)]
  congr 4 <;> (apply UInt8.toNat.inj; rw [UInt8.toNat_ofNat']; omega)

theorem eq_of_finish_one {value low high : Nat} {bytes rest : List UInt8} {c : Char}
    (h : finish value 1 low high bytes = (some c, rest)) :
    ∃ x, bytes = x :: rest ∧ low ≤ x.toNat ∧ x.toNat ≤ high ∧
      c = Char.ofNat (value * 64 + x.toNat % 64) := by
  obtain ⟨x, tail, rfl, hLow, hHigh, hFinish⟩ := eq_cons_of_finish h
  simp only [finish, Prod.mk.injEq, Option.some.injEq] at hFinish
  obtain ⟨rfl, rfl⟩ := hFinish
  exact ⟨x, rfl, hLow, hHigh, rfl⟩

theorem eq_of_finish_two {value low high : Nat} {bytes rest : List UInt8} {c : Char}
    (h : finish value 2 low high bytes = (some c, rest)) :
    ∃ x y, bytes = x :: y :: rest ∧ low ≤ x.toNat ∧ x.toNat ≤ high ∧ 128 ≤ y.toNat ∧
      y.toNat ≤ 191 ∧ c = Char.ofNat ((value * 64 + x.toNat % 64) * 64 + y.toNat % 64) := by
  obtain ⟨x, tail, rfl, hLow, hHigh, hFinish⟩ := eq_cons_of_finish h
  obtain ⟨y, rfl, hy, hy', rfl⟩ := eq_of_finish_one hFinish
  exact ⟨x, y, rfl, hLow, hHigh, hy, hy', rfl⟩

theorem eq_of_finish_three {value low high : Nat} {bytes rest : List UInt8} {c : Char}
    (h : finish value 3 low high bytes = (some c, rest)) :
    ∃ x y z, bytes = x :: y :: z :: rest ∧ low ≤ x.toNat ∧ x.toNat ≤ high ∧ 128 ≤ y.toNat ∧
      y.toNat ≤ 191 ∧ 128 ≤ z.toNat ∧ z.toNat ≤ 191 ∧
      c = Char.ofNat
        (((value * 64 + x.toNat % 64) * 64 + y.toNat % 64) * 64 + z.toNat % 64) := by
  obtain ⟨x, tail, rfl, hLow, hHigh, hFinish⟩ := eq_cons_of_finish h
  obtain ⟨y, z, rfl, hy, hy', hz, hz', rfl⟩ := eq_of_finish_two hFinish
  exact ⟨x, y, z, rfl, hLow, hHigh, hy, hy', hz, hz', rfl⟩

/-- A character that is taken off the front of some bytes begins them. -/
theorem eq_append_of_step {lead : UInt8} {bytes rest : List UInt8} {c : Char}
    (h : step lead bytes = (some c, rest)) :
    lead :: bytes = String.utf8EncodeChar c ++ rest := by
  simp only [step] at h
  split at h
  next hOne =>
    obtain ⟨rfl, rfl⟩ : Char.ofNat lead.toNat = c ∧ bytes = rest := by simpa using h
    rw [String.utf8EncodeChar, val_ofNat (by omega), if_pos (by omega)]
    simp
  next hOne =>
  split at h
  next => simp at h
  next hLead =>
  split at h
  next hTwo =>
    obtain ⟨x, rfl, hx, hx', rfl⟩ := eq_of_finish_one h
    rw [utf8EncodeChar_two (by omega) hTwo hx hx']
    rfl
  next hTwo =>
  split at h
  next h224 =>
    obtain ⟨x, y, rfl, hx, hx', hy, hy', rfl⟩ := eq_of_finish_two h
    rw [show 0 = lead.toNat - 224 by omega]
    rw [utf8EncodeChar_three] <;> first | rfl | omega
  next h224 =>
  split at h
  next h237 =>
    obtain ⟨x, y, rfl, hx, hx', hy, hy', rfl⟩ := eq_of_finish_two h
    rw [show 13 = lead.toNat - 224 by omega]
    rw [utf8EncodeChar_three] <;> first | rfl | omega
  next h237 =>
  split at h
  next hThree =>
    obtain ⟨x, y, rfl, hx, hx', hy, hy', rfl⟩ := eq_of_finish_two h
    rw [utf8EncodeChar_three] <;> first | rfl | omega
  next hThree =>
  split at h
  next h240 =>
    obtain ⟨x, y, z, rfl, hx, hx', hy, hy', hz, hz', rfl⟩ := eq_of_finish_three h
    rw [show 0 = lead.toNat - 240 by omega]
    rw [utf8EncodeChar_four] <;> first | rfl | omega
  next h240 =>
  split at h
  next hFour =>
    obtain ⟨x, y, z, rfl, hx, hx', hy, hy', hz, hz', rfl⟩ := eq_of_finish_three h
    rw [utf8EncodeChar_four] <;> first | rfl | omega
  next hFour =>
  split at h
  next h244 =>
    obtain ⟨x, y, z, rfl, hx, hx', hy, hy', hz, hz', rfl⟩ := eq_of_finish_three h
    rw [show 4 = lead.toNat - 240 by omega]
    rw [utf8EncodeChar_four] <;> first | rfl | omega
  next => simp at h

/-- Bytes that are read as a text are the bytes of that text. -/
theorem encode_of_decode? {bytes : List UInt8} {text : List Char}
    (h : decode? bytes = some text) : encode text = bytes := by
  rw [decode?] at h
  fun_induction pieces bytes generalizing text with
  | case1 => simp_all
  | case2 lead bytes ih =>
      rw [List.mapM_cons] at h
      obtain ⟨c, hc, rest, hRest, rfl⟩ : ∃ c, (step lead bytes).1 = some c ∧
          ∃ rest, (pieces (step lead bytes).2).mapM id = some rest ∧ c :: rest = text := by
        simpa [Option.bind_eq_some_iff] using h
      rw [encode_cons, ih hRest]
      exact (eq_append_of_step (Prod.ext hc rfl)).symm

/-- A byte below 128 stands for itself: it occurs only as the character that it is. -/
theorem toNat_of_mem_utf8EncodeChar {c : Char} {byte : UInt8}
    (h : byte ∈ String.utf8EncodeChar c) (hAscii : byte.toNat < 128) :
    c.toNat = byte.toNat := by
  have hc : c.toNat = c.val.toNat := rfl
  simp only [String.utf8EncodeChar, ← hc] at h
  split at h
  next hOne =>
    simp only [List.mem_singleton] at h
    subst h
    simp only [UInt8.toNat_ofNat']
    omega
  next =>
  split at h
  next =>
    simp only [List.mem_cons, List.not_mem_nil, or_false] at h
    rcases h with rfl | rfl <;> simp only [UInt8.toNat_ofNat'] at hAscii <;> omega
  next =>
  split at h
  next =>
    simp only [List.mem_cons, List.not_mem_nil, or_false] at h
    rcases h with rfl | rfl | rfl <;> simp only [UInt8.toNat_ofNat'] at hAscii <;> omega
  next =>
    simp only [List.mem_cons, List.not_mem_nil, or_false] at h
    rcases h with rfl | rfl | rfl | rfl <;> simp only [UInt8.toNat_ofNat'] at hAscii <;> omega

/-- A byte below 128 among the bytes of a text is a character of it. -/
theorem mem_of_mem_encode {text : List Char} {byte : UInt8} (h : byte ∈ encode text)
    (hAscii : byte.toNat < 128) : Char.ofNat byte.toNat ∈ text := by
  obtain ⟨c, hc, hByte⟩ := List.mem_flatMap.mp h
  rw [← toNat_of_mem_utf8EncodeChar hByte hAscii, Char.ofNat_toNat]
  exact hc

theorem mem_encode_of_mem {text : List Char} {c : Char} {byte : UInt8} (hc : c ∈ text)
    (hByte : byte ∈ String.utf8EncodeChar c) : byte ∈ encode text :=
  List.mem_flatMap.mpr ⟨c, hc, hByte⟩

theorem encode_injective {left right : List Char} (h : encode left = encode right) :
    left = right := by
  have hDecode := congrArg decode? h
  simpa using hDecode

/-- No character takes up less than a byte. -/
theorem length_le_length_encode (text : List Char) : text.length ≤ (encode text).length := by
  induction text with
  | nil => exact Nat.le_refl 0
  | cons c text ih =>
      have hSize := c.utf8Size_pos
      rw [encode_cons, List.length_append, String.length_utf8EncodeChar, List.length_cons]
      omega

/-! Bytes that need not be UTF-8. An ASCII byte is a character of its own wherever it stands, for it
neither begins nor continues a longer one. -/

/-- A byte below 128 continues no character that was begun before it. -/
theorem finish_append {byte : UInt8} (hAscii : byte.toNat < 128) (value count low high : Nat)
    (hLow : 128 ≤ low) (bytes rest : List UInt8) :
    finish value count low high (bytes ++ byte :: rest) =
      ((finish value count low high bytes).1,
        (finish value count low high bytes).2 ++ byte :: rest) := by
  induction count generalizing value low high bytes with
  | zero => rfl
  | succ count ih =>
      cases bytes with
      | nil =>
          have hNone : continuation? low high byte = none := if_neg (by omega)
          simp [finish, hNone]
      | cons first bytes =>
          simp only [List.cons_append, finish]
          cases continuation? low high first with
          | none => rfl
          | some bits => exact ih _ 128 191 (Nat.le_refl 128) bytes

/-- A byte below 128 is not taken along with what stands before it. -/
theorem step_append {byte : UInt8} (hAscii : byte.toNat < 128) (lead : UInt8)
    (bytes rest : List UInt8) :
    step lead (bytes ++ byte :: rest) =
      ((step lead bytes).1, (step lead bytes).2 ++ byte :: rest) := by
  simp only [step]
  repeat' split
  all_goals first | rfl | exact finish_append hAscii _ _ _ _ (by decide) bytes rest

/-- A byte below 128 separates the pieces before it from those after it. -/
theorem pieces_append {byte : UInt8} (hAscii : byte.toNat < 128) (bytes rest : List UInt8) :
    pieces (bytes ++ byte :: rest) =
      pieces bytes ++ some (Char.ofNat byte.toNat) :: pieces rest := by
  fun_induction pieces bytes with
  | case1 => rw [List.nil_append, pieces, step_one rest hAscii, List.nil_append]
  | case2 lead bytes ih => rw [List.cons_append, pieces, step_append hAscii, ih, List.cons_append]

/-- What stands on either side of an ASCII byte is shown on its own. -/
theorem decodeLossy_append {byte : UInt8} (hAscii : byte.toNat < 128) (bytes rest : List UInt8) :
    decodeLossy (bytes ++ byte :: rest) =
      decodeLossy bytes ++ Char.ofNat byte.toNat :: decodeLossy rest := by
  rw [decodeLossy, pieces_append hAscii, List.map_append, List.map_cons, Option.getD_some]
  rfl

theorem finish_suffix (value count low high : Nat) (bytes : List UInt8) :
    (finish value count low high bytes).2 <:+ bytes := by
  induction count generalizing value low high bytes with
  | zero => exact List.suffix_refl bytes
  | succ count ih =>
      cases bytes with
      | nil => exact List.suffix_refl []
      | cons byte bytes =>
          rw [finish]
          split
          · exact (ih _ _ _ bytes).trans (List.suffix_cons byte bytes)
          · exact List.suffix_refl _

theorem step_suffix (lead : UInt8) (bytes : List UInt8) : (step lead bytes).2 <:+ bytes := by
  simp only [step]
  repeat' split
  all_goals first | exact List.suffix_refl bytes | exact finish_suffix ..

/-- The bytes of a character that was read are among those that it was read from. -/
theorem mem_of_mem_pieces {bytes : List UInt8} {c : Char} (h : some c ∈ pieces bytes) :
    ∀ byte ∈ String.utf8EncodeChar c, byte ∈ bytes := by
  fun_induction pieces bytes with
  | case1 => simp at h
  | case2 lead bytes ih =>
      intro byte hByte
      rcases List.mem_cons.mp h with hFirst | hRest
      · rw [eq_append_of_step (Prod.ext hFirst.symm rfl)]
        exact List.mem_append_left _ hByte
      · exact List.mem_cons_of_mem lead ((step_suffix lead bytes).subset (ih hRest byte hByte))

/-- An ASCII character is shown only for the byte that it stands for. -/
theorem mem_of_mem_decodeLossy {bytes : List UInt8} {c : Char} (h : c ∈ decodeLossy bytes)
    (hAscii : c.toNat < 128) : UInt8.ofNat c.toNat ∈ bytes := by
  obtain ⟨piece, hPiece, hShown⟩ := List.mem_map.mp h
  cases piece with
  | none =>
      rw [← hShown] at hAscii
      exact absurd hAscii (by decide)
  | some shown =>
      obtain rfl : shown = c := hShown
      have hByte : String.utf8EncodeChar shown = [UInt8.ofNat shown.toNat] := by
        rw [String.utf8EncodeChar]
        exact if_pos (Nat.le_of_lt_succ hAscii)
      refine mem_of_mem_pieces hPiece _ ?_
      rw [hByte]
      exact List.mem_singleton_self _

end ExportKit.Utf8
