import ExportKit.Json.Printer
import ExportKit.Json.Reader

/-!
Scanning undoes printing: the text of a value has the syntax tree of that value, whatever follows
the text. Values that hold doubles are left out, as their digits are not covered here.
-/
namespace ExportKit.Json

def numeralOf (value : Int) : Numeral where
  negative := decide (value < 0)
  whole := Digits.write value.natAbs
  fraction := []
  exponent := none

/-- A text as it stands between the quotes of a string. -/
def escape (text : List Char) : List Char := text.flatMap escapeChar

mutual

/-- The syntax tree of the text of a value without doubles. -/
def source : Json → Source
  | .null => .null
  | .bool value => .bool value
  | .int value => .number (numeralOf value)
  | .double _ => .null
  | .string value => .string (escape value.toList)
  | .array items => .array (sourceItems items)
  | .object fields => .object (sourceFields fields)

def sourceItems : List Json → List Source
  | [] => []
  | item :: rest => source item :: sourceItems rest

def sourceFields : List (String × Json) → List (List Char × Source)
  | [] => []
  | (key, value) :: rest => (escape key.toList, source value) :: sourceFields rest

end

/-- Values that hold no doubles. -/
inductive Discrete : Json → Prop
  | null : Discrete .null
  | bool (value : Bool) : Discrete (.bool value)
  | int (value : Int) : Discrete (.int value)
  | string (value : String) : Discrete (.string value)
  | array {items : List Json} (discrete : ∀ item ∈ items, Discrete item) : Discrete (.array items)
  | object {fields : List (String × Json)} (discrete : ∀ field ∈ fields, Discrete field.2) :
      Discrete (.object fields)

attribute [simp] Discrete.null Discrete.bool Discrete.int Discrete.string

@[simp] theorem discrete_array_iff {items : List Json} :
    Discrete (.array items) ↔ ∀ item ∈ items, Discrete item :=
  ⟨fun h => by cases h; assumption, .array⟩

@[simp] theorem discrete_object_iff {fields : List (String × Json)} :
    Discrete (.object fields) ↔ ∀ field ∈ fields, Discrete field.2 :=
  ⟨fun h => by cases h; assumption, .object⟩

@[simp] theorem sourceItems_eq (items : List Json) : sourceItems items = items.map source := by
  induction items with
  | nil => rfl
  | cons item rest ih => rw [sourceItems, ih, List.map_cons]

@[simp] theorem sourceFields_eq (fields : List (String × Json)) :
    sourceFields fields = fields.map fun field => (escape field.1.toList, source field.2) := by
  induction fields with
  | nil => rfl
  | cons field rest ih => rw [sourceFields, ih, List.map_cons]

/-! Strings. -/

theorem isHexDigit_hexDigit {n : Nat} (h : n < 16) : isHexDigit (hexDigit n) := by
  have : ∀ n < 16, isHexDigit (hexDigit n) := by decide
  exact this n h

/-- A character is written as a short escape, as a numeric one, or as itself. -/
theorem escapeChar_cases (c : Char) :
    (∃ x, isShortEscape x ∧ shortEscape x = c ∧ escapeChar c = ['\\', x]) ∨
      (c.toNat < 32 ∧ escapeChar c =
        ['\\', 'u', '0', '0', hexDigit (c.toNat / 16), hexDigit (c.toNat % 16)]) ∨
      (c ≠ '"' ∧ c ≠ '\\' ∧ 32 ≤ c.toNat ∧ escapeChar c = [c]) := by
  by_cases hShort : c ∈ ['"', '\\', '\n', '\r', '\t', '\x08', '\x0c']
  · simp only [List.mem_cons, List.not_mem_nil, or_false] at hShort
    left
    rcases hShort with rfl | rfl | rfl | rfl | rfl | rfl | rfl
    · exact ⟨'"', by decide⟩
    · exact ⟨'\\', by decide⟩
    · exact ⟨'n', by decide⟩
    · exact ⟨'r', by decide⟩
    · exact ⟨'t', by decide⟩
    · exact ⟨'b', by decide⟩
    · exact ⟨'f', by decide⟩
  · simp only [List.mem_cons, List.not_mem_nil, or_false, not_or] at hShort
    obtain ⟨h₁, h₂, h₃, h₄, h₅, h₆, h₇⟩ := hShort
    by_cases hControl : c.toNat < 32
    · exact .inr (.inl ⟨hControl, by simp [escapeChar, *]⟩)
    · exact .inr (.inr ⟨h₁, h₂, by omega, by simp [escapeChar, *]⟩)

/-- What a character of a string is written as is scanned as one piece. -/
theorem scanString_escapeChar (c : Char) (rest : List Char) :
    scanString (escapeChar c ++ rest) =
      (scanString rest).map fun (raw, rest) => (escapeChar c ++ raw, rest) := by
  obtain ⟨x, hShort, -, hc⟩ | ⟨hControl, hc⟩ | ⟨hQuote, hBackslash, hControl, hc⟩ :=
    escapeChar_cases c
  · have hNotU : x ≠ 'u' := by rintro rfl; exact absurd hShort (by decide)
    simp [hc, scanString, hShort, hNotU]
  · have hHigh := isHexDigit_hexDigit (show c.toNat / 16 < 16 by omega)
    have hLow := isHexDigit_hexDigit (show c.toNat % 16 < 16 by omega)
    have hZero : isHexDigit '0' := by decide
    simp [hc, scanString, hHigh, hLow, hZero]
  · simp [hc, scanString, hBackslash, Nat.not_lt.2 hControl]

/-- A string ends at the quote that is written after it. -/
theorem scanString_escape (text rest : List Char) :
    scanString (escape text ++ '"' :: rest) = some (escape text, rest) := by
  induction text with
  | nil => simp [escape, scanString]
  | cons c text ih =>
      rw [escape, List.flatMap_cons, List.append_assoc, scanString_escapeChar]
      rw [escape] at ih
      rw [ih]
      rfl

/-! Numbers. -/

/-- What may follow a number so that it ends there. -/
def EndsNumber (rest : List Char) : Prop :=
  ∀ c ∈ rest.head?, ¬c.isDigit ∧ c ≠ '.' ∧ c ≠ 'e' ∧ c ≠ 'E'

theorem EndsNumber.nil : EndsNumber [] := by simp [EndsNumber]

/-- A character that cannot go on with a number ends it. -/
theorem EndsNumber.cons {c : Char} (rest : List Char)
    (h : ¬c.isDigit ∧ c ≠ '.' ∧ c ≠ 'e' ∧ c ≠ 'E' := by decide) : EndsNumber (c :: rest) := by
  simpa [EndsNumber] using h

/-- No number above zero begins with the digit zero. -/
theorem head?_write_ne_zero {n : Nat} (h : 0 < n) : (Digits.write n).head? ≠ some '0' := by
  induction n using Nat.strongRecOn with
  | _ n ih =>
      by_cases hn : n < 10
      · have : ∀ n < 10, 0 < n → (Digits.write n).head? ≠ some '0' := by decide
        exact this n hn h
      · have hDiv := ih (n / 10) (by omega) (by omega)
        have hNil := Digits.write_ne_nil (n / 10)
        unfold Digits.write at *
        rw [Nat.toDigits_of_base_le (by decide) (by omega)]
        rwa [List.head?_append, Option.or_of_isSome (by simp [hNil])]

/-- The digits of a number are scanned up to where the number ends. -/
theorem scanDigits?_write (n : Nat) {rest : List Char} (h : EndsNumber rest) :
    scanDigits? (Digits.write n ++ rest) = some (Digits.write n, rest) := by
  have hDigits : ∀ c ∈ Digits.write n, c.isDigit := by
    simpa using Digits.all_isDigit_write n
  have hTake : rest.takeWhile Char.isDigit = [] ∧ rest.dropWhile Char.isDigit = rest := by
    cases rest with
    | nil => simp
    | cons c rest =>
        have := (h c (by simp)).1
        simp [this]
  rw [scanDigits?, List.takeWhile_append_of_pos hDigits, List.dropWhile_append_of_pos hDigits,
    hTake.1, hTake.2, List.append_nil]
  simp [Digits.write_ne_nil]

theorem exists_write_eq_cons (n : Nat) : ∃ c text, Digits.write n = c :: text ∧ c.isDigit := by
  obtain ⟨c, text, hCons⟩ := List.exists_cons_of_ne_nil (Digits.write_ne_nil n)
  have hAll := Digits.all_isDigit_write n
  rw [hCons, List.all_cons, Bool.and_eq_true] at hAll
  exact ⟨c, text, hCons, hAll.1⟩

theorem exists_writeInt_eq_cons (value : Int) :
    ∃ c text, Digits.writeInt value = c :: text ∧ (c = '-' ∨ c.isDigit) := by
  obtain ⟨c, text, hCons, hDigit⟩ := exists_write_eq_cons value.natAbs
  by_cases hNegative : value < 0
  · exact ⟨'-', _, by rw [Digits.writeInt, if_pos hNegative], .inl rfl⟩
  · exact ⟨c, text, by rw [Digits.writeInt, if_neg hNegative, hCons], .inr hDigit⟩

/-- A number ends where something follows that no number contains. -/
theorem scanNumeral?_writeInt (value : Int) {rest : List Char} (h : EndsNumber rest) :
    scanNumeral? (Digits.writeInt value ++ rest) = some (numeralOf value, rest) := by
  have hWhole : ¬((Digits.write value.natAbs).head? = some '0' ∧
      (Digits.write value.natAbs).length ≠ 1) := by
    by_cases hZero : value.natAbs = 0
    · rw [hZero]
      decide
    · exact fun hHead => head?_write_ne_zero (by omega) hHead.1
  have hFraction : scanFraction? rest = some ([], rest) := by
    unfold scanFraction?
    split
    · exact absurd rfl (h '.' (by simp)).2.1
    · rfl
  have hExponent : scanExponent? rest = some (none, rest) := by
    cases rest with
    | nil => rfl
    | cons c rest => simp [scanExponent?, (h c (by simp)).2.2]
  have hUnsigned : scanDigits? (Digits.write value.natAbs ++ rest) =
      some (Digits.write value.natAbs, rest) := scanDigits?_write value.natAbs h
  by_cases hNegative : value < 0
  · rw [Digits.writeInt, if_pos hNegative, List.cons_append, scanNumeral?]
    simp [hUnsigned, hWhole, hFraction, hExponent, numeralOf, hNegative]
  · have hMinus : ∀ text, Digits.write value.natAbs ++ rest = '-' :: text → False := by
      obtain ⟨c, tail, hCons, hDigit⟩ := exists_write_eq_cons value.natAbs
      rw [hCons]
      rintro text ⟨⟩
      exact absurd hDigit (by decide)
    rw [Digits.writeInt, if_neg hNegative, scanNumeral?]
    · simp [hUnsigned, hWhole, hFraction, hExponent, numeralOf, hNegative]
    · exact hMinus

/-! Gaps. -/

@[simp] theorem skipGaps_newline_append (depth : Nat) (text : List Char) :
    skipGaps (newline depth ++ text) = skipGaps text := by
  have hGaps : ∀ c ∈ newline depth, isGap c := by
    simp only [newline, List.mem_cons, List.mem_replicate]
    rintro c (rfl | ⟨-, rfl⟩) <;> decide
  rw [skipGaps, List.dropWhile_append_of_pos hGaps, skipGaps]

theorem skipGaps_cons {c : Char} (text : List Char) (h : ¬isGap c) :
    skipGaps (c :: text) = c :: text := by
  simp [skipGaps, h]

theorem endsNumber_newline_append (depth : Nat) (text : List Char) :
    EndsNumber (newline depth ++ text) := by
  rw [newline, List.cons_append]
  exact .cons _

/-- What a number begins with is neither a gap nor the beginning of any other value. -/
theorem ne_of_isDigit {c d : Char} (hc : c = '-' ∨ c.isDigit) (hd : ¬d.isDigit)
    (hMinus : d ≠ '-') : c ≠ d := by
  rintro rfl
  exact hc.elim hMinus hd

/-- The text of a value begins with a character that is no gap and does not close a list. -/
theorem exists_prettyChars_eq_cons (depth : Nat) {value : Json} (h : Discrete value) :
    ∃ c text, prettyChars depth value = c :: text ∧ ¬isGap c ∧ c ≠ ']' := by
  cases h with
  | null => exact ⟨_, _, rfl, by decide, by decide⟩
  | bool value => cases value <;> exact ⟨_, _, rfl, by decide, by decide⟩
  | int value =>
      obtain ⟨c, text, hCons, hc⟩ := exists_writeInt_eq_cons value
      refine ⟨c, text, by simp [prettyChars, scalarText, hCons], ?_, ?_⟩
      · simp only [isGap, Bool.or_eq_true, decide_eq_true_eq, not_or]
        refine ⟨⟨⟨?_, ?_⟩, ?_⟩, ?_⟩ <;> exact ne_of_isDigit hc (by decide) (by decide)
      · exact ne_of_isDigit hc (by decide) (by decide)
  | string value =>
      exact ⟨'"', escape value.toList ++ ['"'], by simp [prettyChars, scalarText, quote, escape],
        by decide, by decide⟩
  | @array items h =>
      cases items <;> exact ⟨'[', _, by rw [prettyChars], by decide, by decide⟩
  | @object fields h =>
      cases fields <;> exact ⟨'\x7b', _, by rw [prettyChars], by decide, by decide⟩

/-- The text of a value begins with no gap. -/
theorem skipGaps_prettyChars_append (depth : Nat) {value : Json} (h : Discrete value)
    (rest : List Char) : skipGaps (prettyChars depth value ++ rest) =
      prettyChars depth value ++ rest := by
  obtain ⟨c, text, hCons, hGap, -⟩ := exists_prettyChars_eq_cons depth h
  rw [hCons, List.cons_append, skipGaps_cons _ hGap]

/-! Values. -/

/-- A text that begins like a number is scanned as one. -/
theorem scanValue_writeInt (fuel : Nat) (value : Int) {rest : List Char} (h : EndsNumber rest) :
    scanValue (fuel + 1) (Digits.writeInt value ++ rest) =
      some (.number (numeralOf value), rest) := by
  have hNumeral := scanNumeral?_writeInt value h
  obtain ⟨c, text, hCons, hc⟩ := exists_writeInt_eq_cons value
  rw [hCons, List.cons_append] at hNumeral ⊢
  have hStart (d : Char) (hd : ¬d.isDigit) (hMinus : d ≠ '-') : c ≠ d := ne_of_isDigit hc hd hMinus
  rw [scanValue, hNumeral]
  · rfl
  all_goals
    intro _ hEq
    exact hStart _ (by decide) (by decide) (List.cons.inj hEq).1

/-- A quoted text is scanned as a string. -/
theorem scanValue_quote (fuel : Nat) (text rest : List Char) :
    scanValue (fuel + 1) (quote text ++ rest) = some (.string (escape text), rest) := by
  have hString := scanString_escape text rest
  rw [escape] at hString
  simp [quote, scanValue, hString, escape]

/-- After an opening bracket the items of a list are scanned, unless it is closed at once. -/
theorem scanValue_array (fuel : Nat) {text rest : List Char} (h : skipGaps text = rest)
    (hClose : ∀ tail, rest = ']' :: tail → False) :
    scanValue (fuel + 1) ('[' :: text) =
      (scanItems fuel rest).map fun (items, rest) => (.array items, rest) := by
  subst h
  rw [scanValue]
  split
  next tail hEq => exact (hClose tail hEq).elim
  next => rfl

/-- After an opening brace the fields of an object are scanned. -/
theorem scanValue_object (fuel : Nat) {text rest : List Char} (h : skipGaps text = '"' :: rest) :
    scanValue (fuel + 1) ('\x7b' :: text) =
      (scanFields fuel ('"' :: rest)).map fun (fields, rest) => (.object fields, rest) := by
  simp [scanValue, h]

/-- The item before a closing bracket is the last one. -/
theorem scanItems_last (fuel : Nat) {text rest tail : List Char} {item : Source}
    (hItem : scanValue fuel text = some (item, rest)) (hRest : skipGaps rest = ']' :: tail) :
    scanItems (fuel + 1) text = some ([item], tail) := by
  simp [scanItems, hItem, hRest]

/-- After a comma the next items are scanned. -/
theorem scanItems_cons (fuel : Nat) {text rest tail : List Char} {item : Source}
    (hItem : scanValue fuel text = some (item, rest)) (hRest : skipGaps rest = ',' :: tail) :
    scanItems (fuel + 1) text =
      (scanItems fuel (skipGaps tail)).map fun (items, rest) => (item :: items, rest) := by
  simp [scanItems, hItem, hRest]

/-- The value of a field follows a colon and a gap. -/
theorem scanFields_last (fuel : Nat) (key : List Char) {text rest tail : List Char}
    {value : Source} (hValue : scanValue fuel (skipGaps text) = some (value, rest))
    (hRest : skipGaps rest = '\x7d' :: tail) :
    scanFields (fuel + 1) (quote key ++ ':' :: text) = some ([(escape key, value)], tail) := by
  have hKey := scanString_escape key (':' :: text)
  have hColon : skipGaps (':' :: text) = ':' :: text := skipGaps_cons text (by decide)
  rw [escape] at *
  simp [quote, scanFields, hKey, hColon, hValue, hRest]

theorem scanFields_cons (fuel : Nat) (key : List Char) {text rest tail : List Char}
    {value : Source} (hValue : scanValue fuel (skipGaps text) = some (value, rest))
    (hRest : skipGaps rest = ',' :: tail) :
    scanFields (fuel + 1) (quote key ++ ':' :: text) =
      (scanFields fuel (skipGaps tail)).map fun (fields, rest) =>
        ((escape key, value) :: fields, rest) := by
  have hKey := scanString_escape key (':' :: text)
  have hColon : skipGaps (':' :: text) = ':' :: text := skipGaps_cons text (by decide)
  rw [escape] at *
  simp [quote, scanFields, hKey, hColon, hValue, hRest]

/-- The gap between a key and its value is a single space. -/
theorem skipGaps_space_prettyChars_append (depth : Nat) {value : Json} (h : Discrete value)
    (rest : List Char) : skipGaps (' ' :: (prettyChars depth value ++ rest)) =
      prettyChars depth value ++ rest := by
  refine Eq.trans ?_ (skipGaps_prettyChars_append depth h rest)
  simp [skipGaps, isGap]

theorem skipGaps_quote_append (text rest : List Char) :
    skipGaps (quote text ++ rest) = quote text ++ rest := by
  rw [quote, List.cons_append, skipGaps_cons _ (by decide)]

/-- Between two items stands a comma, and each is on a line of its own. -/
theorem prettyItems_cons_cons (depth : Nat) (item next : Json) (items : List Json) :
    prettyItems depth (item :: next :: items) =
      newline depth ++ (prettyChars depth item ++ ',' :: prettyItems depth (next :: items)) := by
  simp [prettyItems]

theorem prettyFields_singleton (depth : Nat) (field : String × Json) :
    prettyFields depth [field] =
      newline depth ++ (quote field.1.toList ++ ':' :: ' ' :: prettyChars depth field.2) := by
  simp [prettyFields]

theorem prettyFields_cons_cons (depth : Nat) (field next : String × Json)
    (fields : List (String × Json)) :
    prettyFields depth (field :: next :: fields) =
      newline depth ++ (quote field.1.toList ++ ':' :: ' ' :: (prettyChars depth field.2 ++
        ',' :: prettyFields depth (next :: fields))) := by
  simp [prettyFields]

/-- The items of a list that has some do not begin with the bracket that closes it. -/
theorem skipGaps_prettyItems_ne (depth : Nat) {item : Json} (items : List Json)
    (h : Discrete item) (rest tail : List Char) :
    skipGaps (prettyItems depth (item :: items) ++ rest) ≠ ']' :: tail := by
  obtain ⟨c, text, hCons, hGap, hClose⟩ := exists_prettyChars_eq_cons depth h
  have hItems : ∃ more, prettyItems depth (item :: items) = newline depth ++ (c :: more) := by
    cases items with
    | nil => exact ⟨text, by rw [prettyItems, hCons]⟩
    | cons next items =>
        exact ⟨_, by rw [prettyItems_cons_cons, hCons, List.cons_append]⟩
  obtain ⟨more, hItems⟩ := hItems
  rw [hItems, List.append_assoc, skipGaps_newline_append, List.cons_append, skipGaps_cons _ hGap]
  exact fun hEq => hClose (List.cons.inj hEq).1

/-- The fields of an object that has some begin with the quote of a key. -/
theorem exists_skipGaps_prettyFields (depth : Nat) (field : String × Json)
    (fields : List (String × Json)) (rest : List Char) :
    ∃ text, skipGaps (prettyFields depth (field :: fields) ++ rest) = '"' :: text := by
  have hFields : ∃ more, prettyFields depth (field :: fields) = newline depth ++ ('"' :: more) := by
    cases fields with
    | nil => exact ⟨_, by rw [prettyFields_singleton, quote, List.cons_append]⟩
    | cons next fields => exact ⟨_, by rw [prettyFields_cons_cons, quote, List.cons_append]⟩
  obtain ⟨more, hFields⟩ := hFields
  rw [hFields, List.append_assoc, skipGaps_newline_append, List.cons_append]
  exact ⟨_, skipGaps_cons _ (by decide)⟩

/-- Fuel for the text of a value is fuel for one step at least. -/
theorem exists_fuel {depth fuel : Nat} {value : Json} (h : Discrete value)
    (hFuel : 2 * (prettyChars depth value).length ≤ fuel) : ∃ n, fuel = n + 1 := by
  obtain ⟨c, text, hCons, -⟩ := exists_prettyChars_eq_cons depth h
  rw [hCons, List.length_cons] at hFuel
  exact ⟨fuel - 1, by omega⟩

/-! The recursion below follows that of the printer. The fuel is twice the length of the text, as
each call of a scanner either takes a character or calls one that does. -/

mutual

/-- The text of a value is scanned as that value, and what follows it is left over. -/
theorem scanValue_prettyChars : (value : Json) → Discrete value → (depth fuel : Nat) →
    (rest : List Char) → EndsNumber rest → 2 * (prettyChars depth value).length ≤ fuel →
    scanValue fuel (prettyChars depth value ++ rest) = some (source value, rest)
  | .null, h, depth, fuel, rest, _, hFuel => by
      obtain ⟨fuel, rfl⟩ := exists_fuel h hFuel
      rfl
  | .bool true, h, depth, fuel, rest, _, hFuel => by
      obtain ⟨fuel, rfl⟩ := exists_fuel h hFuel
      rfl
  | .bool false, h, depth, fuel, rest, _, hFuel => by
      obtain ⟨fuel, rfl⟩ := exists_fuel h hFuel
      rfl
  | .int value, h, depth, fuel, rest, hRest, hFuel => by
      obtain ⟨fuel, rfl⟩ := exists_fuel h hFuel
      exact scanValue_writeInt fuel value hRest
  | .double _, h, _, _, _, _, _ => nomatch h
  | .string value, h, depth, fuel, rest, _, hFuel => by
      obtain ⟨fuel, rfl⟩ := exists_fuel h hFuel
      exact scanValue_quote fuel value.toList rest
  | .array [], h, depth, fuel, rest, _, hFuel => by
      obtain ⟨fuel, rfl⟩ := exists_fuel h hFuel
      rfl
  | .array (item :: items), h, depth, fuel, rest, _, hFuel => by
      obtain ⟨fuel, rfl⟩ := exists_fuel h hFuel
      have hDiscrete := discrete_array_iff.mp h
      have hItems := scanItems_prettyItems (item :: items) (by simp) hDiscrete (depth + 1) depth
        fuel rest (by simp [prettyChars] at hFuel; omega)
      have hOpen := skipGaps_prettyItems_ne (depth + 1) items (hDiscrete item (by simp))
        (newline depth ++ ']' :: rest)
      have hArray := scanValue_array fuel rfl hOpen
      rw [hItems] at hArray
      simpa [prettyChars, source] using hArray
  | .object [], h, depth, fuel, rest, _, hFuel => by
      obtain ⟨fuel, rfl⟩ := exists_fuel h hFuel
      rfl
  | .object (field :: fields), h, depth, fuel, rest, _, hFuel => by
      obtain ⟨fuel, rfl⟩ := exists_fuel h hFuel
      have hDiscrete := discrete_object_iff.mp h
      have hFields := scanFields_prettyFields (field :: fields) (by simp) hDiscrete (depth + 1)
        depth fuel rest (by simp [prettyChars] at hFuel; omega)
      obtain ⟨text, hOpen⟩ := exists_skipGaps_prettyFields (depth + 1) field fields
        (newline depth ++ '\x7d' :: rest)
      have hObject := scanValue_object fuel hOpen
      rw [← hOpen, hFields] at hObject
      simpa [prettyChars, source] using hObject

/-- The items of a list are scanned up to the bracket that closes it. -/
theorem scanItems_prettyItems : (items : List Json) → items ≠ [] →
    (∀ item ∈ items, Discrete item) → (depth close fuel : Nat) → (rest : List Char) →
    2 * (prettyItems depth items).length ≤ fuel →
    scanItems fuel (skipGaps (prettyItems depth items ++ (newline close ++ ']' :: rest))) =
      some (items.map source, rest)
  | [], h, _, _, _, _, _, _ => absurd rfl h
  | [item], _, h, depth, close, fuel, rest, hFuel => by
      have hItem := h item (by simp)
      rw [prettyItems, List.length_append, newline, List.length_cons] at hFuel
      obtain ⟨fuel, rfl⟩ : ∃ n, fuel = n + 1 := ⟨fuel - 1, by omega⟩
      have hScan := scanValue_prettyChars item hItem depth fuel (newline close ++ ']' :: rest)
        (endsNumber_newline_append _ _) (by omega)
      rw [prettyItems, List.append_assoc, skipGaps_newline_append,
        skipGaps_prettyChars_append depth hItem]
      exact scanItems_last fuel hScan (by simp [skipGaps_cons, isGap])
  | item :: next :: items, _, h, depth, close, fuel, rest, hFuel => by
      have hItem := h item (by simp)
      rw [prettyItems_cons_cons, List.length_append, List.length_append, newline,
        List.length_cons, List.length_cons] at hFuel
      obtain ⟨fuel, rfl⟩ : ∃ n, fuel = n + 1 := ⟨fuel - 1, by omega⟩
      have hScan := scanValue_prettyChars item hItem depth fuel
        (',' :: (prettyItems depth (next :: items) ++ (newline close ++ ']' :: rest)))
        (.cons _) (by omega)
      have hRest := scanItems_prettyItems (next :: items) (by simp)
        (fun x hx => h x (List.mem_cons_of_mem _ hx)) depth close fuel rest (by omega)
      rw [prettyItems_cons_cons, List.append_assoc, List.append_assoc, List.cons_append,
        skipGaps_newline_append, skipGaps_prettyChars_append depth hItem,
        scanItems_cons fuel hScan (skipGaps_cons _ (by decide)), hRest]
      rfl

/-- The fields of an object are scanned up to the brace that closes it. -/
theorem scanFields_prettyFields : (fields : List (String × Json)) → fields ≠ [] →
    (∀ field ∈ fields, Discrete field.2) → (depth close fuel : Nat) → (rest : List Char) →
    2 * (prettyFields depth fields).length ≤ fuel →
    scanFields fuel (skipGaps (prettyFields depth fields ++ (newline close ++ '\x7d' :: rest))) =
      some (fields.map fun field => (escape field.1.toList, source field.2), rest)
  | [], h, _, _, _, _, _, _ => absurd rfl h
  | [(key, value)], _, h, depth, close, fuel, rest, hFuel => by
      have hValue : Discrete value := h (key, value) (by simp)
      rw [prettyFields_singleton] at hFuel
      simp only [List.length_append, newline, List.length_cons] at hFuel
      obtain ⟨fuel, rfl⟩ : ∃ n, fuel = n + 1 := ⟨fuel - 1, by omega⟩
      have hScan := scanValue_prettyChars value hValue depth fuel
        (newline close ++ '\x7d' :: rest) (endsNumber_newline_append _ _) (by omega)
      rw [← skipGaps_space_prettyChars_append depth hValue] at hScan
      have hKey := skipGaps_quote_append key.toList
        (':' :: ' ' :: (prettyChars depth value ++ (newline close ++ '\x7d' :: rest)))
      simp only [prettyFields_singleton, List.append_assoc, List.cons_append,
        skipGaps_newline_append, hKey]
      exact scanFields_last fuel key.toList hScan (by simp [skipGaps_cons, isGap])
  | (key, value) :: next :: fields, _, h, depth, close, fuel, rest, hFuel => by
      have hValue : Discrete value := h (key, value) (by simp)
      rw [prettyFields_cons_cons] at hFuel
      simp only [List.length_append, newline, List.length_cons] at hFuel
      obtain ⟨fuel, rfl⟩ : ∃ n, fuel = n + 1 := ⟨fuel - 1, by omega⟩
      have hScan := scanValue_prettyChars value hValue depth fuel
        (',' :: (prettyFields depth (next :: fields) ++ (newline close ++ '\x7d' :: rest)))
        (.cons _) (by omega)
      rw [← skipGaps_space_prettyChars_append depth hValue] at hScan
      have hRest := scanFields_prettyFields (next :: fields) (by simp)
        (fun x hx => h x (List.mem_cons_of_mem _ hx)) depth close fuel rest (by omega)
      have hKey := skipGaps_quote_append key.toList (':' :: ' ' :: (prettyChars depth value ++
        ',' :: (prettyFields depth (next :: fields) ++ (newline close ++ '\x7d' :: rest))))
      simp only [prettyFields_cons_cons, List.append_assoc, List.cons_append,
        skipGaps_newline_append, hKey]
      rw [scanFields_cons fuel key.toList hScan (skipGaps_cons _ (by decide)), hRest]
      rfl

end

/-- The text of a whole document has the syntax tree of its value, also with a line feed after
it. -/
theorem ofText?_pretty {value : Json} (h : Discrete value) {rest : List Char}
    (hRest : skipGaps rest = []) (hEnds : EndsNumber rest) :
    Source.ofText? (prettyChars 0 value ++ rest) = some (source value) := by
  have hScan := scanValue_prettyChars value h 0 (2 * (prettyChars 0 value ++ rest).length + 1) rest
    hEnds (by simp; omega)
  rw [Source.ofText?, skipGaps_prettyChars_append 0 h, hScan]
  simp [hRest]

end ExportKit.Json
