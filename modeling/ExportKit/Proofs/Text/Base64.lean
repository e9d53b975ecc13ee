import ExportKit.Text.Base64

/-!
Base64 is read back, whether or not its digits are broken into lines, and nothing else is read.
-/
namespace ExportKit.Base64

theorem value?_digit {n : Nat} (h : n < 64) : value? (digit n) = some n := by
  have hAll : ∀ n : Fin 64, value? (digit n) = some n.val := by decide +kernel
  exact hAll ⟨n, h⟩

theorem digit_ne_padding {n : Nat} (h : n < 64) : digit n ≠ '=' := by
  have hAll : ∀ n : Fin 64, digit n ≠ '=' := by decide +kernel
  exact hAll ⟨n, h⟩

theorem ofNat_eq_of_toNat {n : Nat} {byte : UInt8} (h : n = byte.toNat) :
    UInt8.ofNat n = byte := by
  rw [h, UInt8.ofNat_toNat]

/-- Bytes are read back from their digits. -/
theorem decode?_encode (bytes : List UInt8) : decode? (encode bytes) = some bytes := by
  induction bytes using encode.induct with
  | case1 => rfl
  | case2 a =>
      have ha := a.toNat_lt
      have hByte : UInt8.ofNat (a.toNat / 4 * 4 + a.toNat % 4 * 16 / 16) = a :=
        ofNat_eq_of_toNat (by omega)
      have hBits : a.toNat % 4 * 16 % 16 = 0 := by omega
      rw [encode, decode?, value?_digit (by omega), value?_digit (by omega)]
      simp only [Option.bind_eq_bind, Option.bind_some, if_true, hByte, hBits, and_self]
  | case3 a b =>
      have ha := a.toNat_lt
      have hb := b.toNat_lt
      have hFirst : UInt8.ofNat
          (a.toNat / 4 * 4 + (a.toNat % 4 * 16 + b.toNat / 16) / 16) = a :=
        ofNat_eq_of_toNat (by omega)
      have hSecond : UInt8.ofNat ((a.toNat % 4 * 16 + b.toNat / 16) % 16 * 16 +
          b.toNat % 16 * 4 / 4) = b :=
        ofNat_eq_of_toNat (by omega)
      have hBits : b.toNat % 16 * 4 % 4 = 0 := by omega
      have hDigit : digit (b.toNat % 16 * 4) ≠ '=' := digit_ne_padding (by omega)
      rw [encode, decode?, value?_digit (by omega), value?_digit (by omega),
        value?_digit (by omega)]
      simp only [Option.bind_eq_bind, Option.bind_some, if_true, if_neg hDigit, hFirst, hSecond,
        hBits, and_self]
  | case4 a b c rest ih =>
      have ha := a.toNat_lt
      have hb := b.toNat_lt
      have hc := c.toNat_lt
      have hFirst : UInt8.ofNat
          (a.toNat / 4 * 4 + (a.toNat % 4 * 16 + b.toNat / 16) / 16) = a :=
        ofNat_eq_of_toNat (by omega)
      have hSecond : UInt8.ofNat ((a.toNat % 4 * 16 + b.toNat / 16) % 16 * 16 +
          (b.toNat % 16 * 4 + c.toNat / 64) / 4) = b :=
        ofNat_eq_of_toNat (by omega)
      have hThird : UInt8.ofNat
          ((b.toNat % 16 * 4 + c.toNat / 64) % 4 * 64 + c.toNat % 64) = c :=
        ofNat_eq_of_toNat (by omega)
      have hDigit : digit (b.toNat % 16 * 4 + c.toNat / 64) ≠ '=' := digit_ne_padding (by omega)
      have hLast : digit (c.toNat % 64) ≠ '=' := digit_ne_padding (by omega)
      rw [encode, decode?, value?_digit (by omega), value?_digit (by omega),
        value?_digit (by omega), value?_digit (by omega), ih]
      simp only [Option.bind_eq_bind, Option.bind_some, if_neg hDigit, if_neg hLast, hFirst,
        hSecond, hThird]

/-- Each value is written with one digit only. -/
theorem digit_of_value? {c : Char} {n : Nat} (h : value? c = some n) : digit n = c ∧ n < 64 := by
  obtain ⟨hLt, hEq, -⟩ := List.findIdx?_eq_some_iff_getElem.mp h
  refine ⟨?_, hLt⟩
  rw [digit, List.getD_eq_getElem?_getD, List.getElem?_eq_getElem hLt, Option.getD_some]
  exact of_decide_eq_true hEq

/-- Only what is written for some bytes is read. -/
theorem encode_of_decode? {digits : List Char} {bytes : List UInt8}
    (h : decode? digits = some bytes) : encode bytes = digits := by
  induction digits using decode?.induct generalizing bytes with
  | case1 =>
      obtain rfl := Option.some.inj h
      rfl
  | case2 w x y z rest ih =>
      simp only [decode?, Option.bind_eq_bind, Option.bind_eq_some_iff] at h
      obtain ⟨a, hw, b, hx, h⟩ := h
      obtain ⟨rfl, ha⟩ := digit_of_value? hw
      obtain ⟨rfl, hb⟩ := digit_of_value? hx
      have hFirst : (UInt8.ofNat (a * 4 + b / 16)).toNat = a * 4 + b / 16 :=
        UInt8.toNat_ofNat_of_lt' (show _ < 256 by omega)
      have hA : (a * 4 + b / 16) / 4 = a := by omega
      split at h
      next hy =>
        split at h
        next hEnd =>
          obtain ⟨rfl, rfl, hBits⟩ := hEnd
          obtain rfl := Option.some.inj h
          have hB : (a * 4 + b / 16) % 4 * 16 = b := by omega
          rw [encode, hFirst, hA, hB, hy]
        next => cases h
      next hy =>
        obtain ⟨c, hValue, hRest⟩ := Option.bind_eq_some_iff.mp h
        obtain ⟨rfl, hc⟩ := digit_of_value? hValue
        have hSecond : (UInt8.ofNat (b % 16 * 16 + c / 4)).toNat = b % 16 * 16 + c / 4 :=
          UInt8.toNat_ofNat_of_lt' (show _ < 256 by omega)
        have hB : (a * 4 + b / 16) % 4 * 16 + (b % 16 * 16 + c / 4) / 16 = b := by omega
        split at hRest
        next hz =>
          split at hRest
          next hEnd =>
            obtain ⟨rfl, hBits⟩ := hEnd
            obtain rfl := Option.some.inj hRest
            have hC : (b % 16 * 16 + c / 4) % 16 * 4 = c := by omega
            rw [encode, hFirst, hSecond, hA, hB, hC, hz]
          next => cases hRest
        next hz =>
          obtain ⟨d, hLast, hAll⟩ := Option.bind_eq_some_iff.mp hRest
          obtain ⟨rfl, hd⟩ := digit_of_value? hLast
          obtain ⟨more, hMore, hBytes⟩ := Option.bind_eq_some_iff.mp hAll
          obtain rfl := Option.some.inj hBytes
          have hThird : (UInt8.ofNat (c % 4 * 64 + d)).toNat = c % 4 * 64 + d :=
            UInt8.toNat_ofNat_of_lt' (show _ < 256 by omega)
          have hC : (b % 16 * 16 + c / 4) % 16 * 4 + (c % 4 * 64 + d) / 64 = c := by omega
          have hD : (c % 4 * 64 + d) % 64 = d := by omega
          rw [encode, hFirst, hSecond, hThird, hA, hB, hC, hD, ih hMore]
  | case3 digits hNil hCons =>
      rw [decode?] at h
      · cases h
      · exact hNil
      · exact hCons

/-- Each group of three bytes takes four digits, a shorter last group too. -/
theorem length_encode (bytes : List UInt8) :
    (encode bytes).length = 4 * ((bytes.length + 2) / 3) := by
  induction bytes using encode.induct with
  | case1 | case2 | case3 => simp [encode]
  | case4 a b c rest ih =>
      simp only [encode, List.length_cons, ih]
      omega

theorem digit_mem (n : Nat) : digit n ∈ '=' :: alphabet := by
  rw [digit, List.getD_eq_getElem?_getD]
  cases h : alphabet[n]? with
  | none => simp
  | some c => exact List.mem_cons_of_mem _ (List.mem_of_getElem? h)

theorem mem_alphabet_of_mem_encode {bytes : List UInt8} {c : Char} (h : c ∈ encode bytes) :
    c ∈ '=' :: alphabet := by
  induction bytes using encode.induct with
  | case1 => simp [encode] at h
  | case2 a =>
      simp only [encode, List.mem_cons, List.not_mem_nil, or_false] at h
      rcases h with rfl | rfl | rfl | rfl
      · exact digit_mem _
      · exact digit_mem _
      · exact List.mem_cons_self
      · exact List.mem_cons_self
  | case3 a b =>
      simp only [encode, List.mem_cons, List.not_mem_nil, or_false] at h
      rcases h with rfl | rfl | rfl | rfl
      · exact digit_mem _
      · exact digit_mem _
      · exact digit_mem _
      · exact List.mem_cons_self
  | case4 a b c rest ih =>
      simp only [encode, List.mem_cons] at h
      rcases h with rfl | rfl | rfl | rfl | h
      · exact digit_mem _
      · exact digit_mem _
      · exact digit_mem _
      · exact digit_mem _
      · exact ih h

/-- The lines that a text is broken into make up the text. -/
theorem flatten_wrap {width : Nat} (hWidth : width ≠ 0) (text : List Char) :
    (wrap width text).flatten = text := by
  induction text using wrap.induct width with
  | case1 text h =>
      rw [wrap, if_pos h]
      exact (h.resolve_left hWidth).symm
  | case2 text h ih =>
      rw [wrap, if_neg h, List.flatten_cons, ih, List.take_append_drop]

/-- The lines put together are the encoded text. -/
theorem flatten_lines (bytes : List UInt8) : (lines bytes).flatten = encode bytes :=
  flatten_wrap (by decide) _

theorem mem_alphabet_of_mem_lines {bytes : List UInt8} {line : List Char} {c : Char}
    (hLine : line ∈ lines bytes) (hc : c ∈ line) : c ∈ '=' :: alphabet := by
  have hEncode : c ∈ encode bytes := by
    rw [← flatten_lines]
    exact List.mem_flatten_of_mem hLine hc
  exact mem_alphabet_of_mem_encode hEncode

/-- Bytes are read back from their lines once the line feeds are left out. -/
theorem decode?_filter_encodeLines (bytes : List UInt8) :
    decode? ((encodeLines bytes).filter (· ≠ '\n')) = some bytes := by
  have hNewline : '\n' ∉ '=' :: alphabet := by decide
  have hFilter : (encodeLines bytes).filter (· ≠ '\n') = (lines bytes).flatten := by
    have hLine : ∀ line ∈ lines bytes, (line ++ ['\n']).filter (· ≠ '\n') = line := by
      intro line hLine
      have hKeep : line.filter (· ≠ '\n') = line := List.filter_eq_self.mpr fun c hc => by
        simpa using ne_of_mem_of_not_mem (mem_alphabet_of_mem_lines hLine hc) hNewline
      rw [List.filter_append, hKeep]
      simp
    rw [encodeLines, List.filter_flatMap, List.flatMap_def, List.map_congr_left hLine, List.map_id']
  rw [hFilter, flatten_lines, decode?_encode]

end ExportKit.Base64
