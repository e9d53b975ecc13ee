import ExportKit.Proofs.Json.Scanning
import ExportKit.Proofs.SortedMap

/-!
Each reader gives back the value whose syntax tree it is applied to. Main statements: one for
texts, for numbers, for lists, for maps and for records.
-/
namespace ExportKit.Json

theorem hexValue_hexDigit {n : Nat} (h : n < 16) : hexValue (hexDigit n) = n := by
  have hAll : ∀ n < 16, hexValue (hexDigit n) = n := by decide
  exact hAll n h

theorem unescape?_escapeChar (c : Char) (rest : List Char) :
    unescape? (escapeChar c ++ rest) = (unescape? rest).map (c :: ·) := by
  obtain ⟨x, hShort, hx, hc⟩ | ⟨hControl, hc⟩ | ⟨-, hBackslash, -, hc⟩ := escapeChar_cases c
  · have hNotU : x ≠ 'u' := by
      rintro rfl
      exact absurd hShort (by decide)
    simp [hc, unescape?, hNotU, hx]
  · have hUnit : hexUnit '0' '0' (hexDigit (c.toNat / 16)) (hexDigit (c.toNat % 16)) =
        c.toNat := by
      rw [hexUnit, hexValue_hexDigit (by omega), hexValue_hexDigit (by omega)]
      have hZero : hexValue '0' = 0 := by decide
      omega
    have hSurrogate : ¬(0xD800 ≤ c.toNat ∧ c.toNat < 0xDC00) := by omega
    have hSurrogate' : ¬(0xDC00 ≤ c.toNat ∧ c.toNat < 0xE000) := by omega
    rw [hc, unescape?.eq_def]
    simp only [List.cons_append, List.nil_append, hUnit, if_neg hSurrogate, if_neg hSurrogate',
      Char.ofNat_toNat]
  · simp [hc, unescape?, hBackslash]

/-- A text is read back from what stands between the quotes. -/
@[simp] theorem unescape?_escape (text : List Char) : unescape? (escape text) = some text := by
  induction text with
  | nil => simp [escape, unescape?]
  | cons c text ih =>
      rw [escape, List.flatMap_cons, unescape?_escapeChar]
      rw [escape] at ih
      simp [ih]

/-- An integer is read back from its digits. -/
@[simp] theorem int?_numeralOf (value : Int) : (numeralOf value).int? = some value := by
  have hWhole : Nat.ofDigitChars 10 (Digits.write value.natAbs) 0 = value.natAbs := by
    rw [Digits.write, Nat.ofDigitChars_ten_toDigits]
  simp only [numeralOf, Numeral.int?, hWhole]
  by_cases hNegative : value < 0
  · have hZero : value.natAbs ≠ 0 := by omega
    have hValue : -(value.natAbs : Int) = value := by omega
    rw [if_neg (by simp), if_pos (decide_eq_true hNegative), if_neg hZero, hValue]
  · have hValue : (value.natAbs : Int) = value := by omega
    rw [if_neg (by simp), if_neg (by simpa using hNegative), hValue]

namespace Reader

variable {α β : Type}

@[simp] theorem string_source (depth : Nat) (value : String) :
    string depth (source (.string value)) = some value := by
  simp [source, string]

@[simp] theorem bool_source (depth : Nat) (value : Bool) :
    bool depth (source (.bool value)) = some value := rfl

/-- An integer within the bounds is read back from its text. -/
theorem intWithin_source {low high : Int} (depth : Nat) {value : Int} (hLow : low ≤ value)
    (hHigh : value ≤ high) : intWithin low high depth (source (.int value)) = some value := by
  simp [source, intWithin, int, hLow, hHigh]

@[simp] theorem uint8_source (depth : Nat) (value : UInt8) :
    uint8 depth (source (.int value.toNat)) = some value := by
  have h := value.toNat_lt
  have hSize : UInt8.size = 2 ^ 8 := rfl
  rw [uint8, intWithin_source depth (by omega) (by omega)]
  simp

@[simp] theorem uint64_source (depth : Nat) (value : UInt64) :
    uint64 depth (source (.int value.toNat)) = some value := by
  have h := value.toNat_lt
  have hSize : UInt64.size = 2 ^ 64 := rfl
  rw [uint64, intWithin_source depth (by omega) (by omega)]
  simp

@[simp] theorem int32_source (depth : Nat) (value : Int32) :
    int32 depth (source (.int value.toInt)) = some value := by
  rw [int32, intWithin_source depth value.minValue_le_toInt value.toInt_le]
  simp

@[simp] theorem int64_source (depth : Nat) (value : Int64) :
    int64 depth (source (.int value.toInt)) = some value := by
  rw [int64, intWithin_source depth value.minValue_le_toInt value.toInt_le]
  simp

/-- A count is read back from the text that holds its digits. -/
@[simp] theorem countText_source (depth : Nat) (value : UInt64) :
    countText depth (source (.string (String.ofList (Digits.write value.toNat)))) =
      some value := by
  obtain ⟨c, text, hCons, hDigit⟩ := exists_write_eq_cons value.toNat
  have hRead := Digits.readUInt64?_write value
  have hPlus : c ≠ '+' := by
    rintro rfl
    exact absurd hDigit (by decide)
  simp only [countText, string_source, Option.bind_eq_bind, Option.bind_some, String.toList_ofList]
  rw [hCons] at hRead ⊢
  simp [hPlus, hRead]

/-- A word is read as what it stands for in the list of words. -/
theorem word_source (words : List (String × α)) (depth : Nat) (value : String) :
    word words depth (source (.string value)) = words.lookup value := by
  simp [source, word]

/-- Where reading each of the written items succeeds, reading the list does. -/
theorem mapM_map_eq_some {γ : Type} {f : β → Option γ} {l : List α} (g : α → β) (k : α → γ)
    (h : ∀ x ∈ l, f (g x) = some (k x)) : (l.map g).mapM f = some (l.map k) := by
  induction l with
  | nil => rfl
  | cons x l ih =>
      have hRest := ih fun y hy => h y (List.mem_cons_of_mem _ hy)
      simp only [List.map_cons, List.mapM_cons, h x (by simp), hRest]
      rfl

/-- A list is read back if each of its items is. -/
theorem list_source {item : Reader α} {depth : Nat} (toJson : α → Json) (values : List α)
    (h : ∀ value ∈ values, item depth (source (toJson value)) = some value) :
    list item (depth + 1) (source (.array (values.map toJson))) = some values := by
  have hItems := mapM_map_eq_some (fun value => source (toJson value)) id h
  simpa [source, list, Function.comp_def] using hItems

/-- A map from texts is read back if each of its values is. -/
theorem textMap_source {value : Reader α} {depth : Nat} (toJson : α → Json)
    (map : SortedMap String α)
    (h : ∀ entry ∈ map.entries, value depth (source (toJson entry.2)) = some entry.2) :
    textMap value (depth + 1)
      (source (.object (map.entries.map fun entry => (entry.1, toJson entry.2)))) = some map := by
  have hEntries := mapM_map_eq_some (l := map.entries)
    (f := fun field : List Char × Source => do
      some (String.ofList (← unescape? field.1), ← value depth field.2))
    (fun entry => (escape entry.1.toList, source (toJson entry.2))) id
    (fun entry hEntry => by simp [h entry hEntry])
  simp only [source, textMap, sourceFields_eq, List.map_map, Function.comp_def]
  rw [hEntries]
  simp [SortedMap.ofList_entries]

/-- Digits and hyphens are not escaped. -/
theorem escapeChar_of_isDigit {c : Char} (h : c = '-' ∨ c.isDigit) : escapeChar c = [c] := by
  obtain ⟨x, hShort, hx, -⟩ | ⟨hControl, -⟩ | ⟨-, -, -, hc⟩ := escapeChar_cases c
  · have hx' : ¬(shortEscape x = '-' ∨ (shortEscape x).isDigit) := by
      simp only [isShortEscape, Bool.or_eq_true, decide_eq_true_eq] at hShort
      rcases hShort with ((((((rfl | rfl) | rfl) | rfl) | rfl) | rfl) | rfl) | rfl <;> decide
    exact absurd (hx ▸ h) hx'
  · rcases h with rfl | h
    · exact absurd hControl (by decide)
    · have hLow : 48 ≤ c.toNat := (Char.isDigit_iff_toNat.mp h).1
      omega
  · exact hc

/-- The digits of a number stand in a string as they are. -/
theorem escape_writeInt (value : Int) : escape (Digits.writeInt value) = Digits.writeInt value := by
  have hChars : ∀ c ∈ Digits.writeInt value, escapeChar c = [c] := by
    intro c hc
    apply escapeChar_of_isDigit
    have hDigit : ∀ c ∈ Digits.write value.natAbs, c.isDigit := by
      simpa using Digits.all_isDigit_write value.natAbs
    rw [Digits.writeInt] at hc
    split at hc
    · exact (List.mem_cons.mp hc).imp_right (hDigit c)
    · exact .inr (hDigit c hc)
  rw [escape, List.flatMap_def, List.map_congr_left hChars, ← List.flatMap_def,
    List.flatMap_singleton']

/-- A map from field ids is read back if each of its values is. -/
theorem int32Map_source {value : Reader α} {depth : Nat} (toJson : α → Json)
    (map : SortedMap Int32 α)
    (h : ∀ entry ∈ map.entries, value depth (source (toJson entry.2)) = some entry.2) :
    int32Map value (depth + 1) (source (.object (map.entries.map fun entry =>
      (String.ofList (Digits.writeInt entry.1.toInt), toJson entry.2)))) = some map := by
  have hKey (id : Int32) : int32Key? (escape (Digits.writeInt id.toInt)) = some id := by
    have hScan := scanNumeral?_writeInt id.toInt .nil
    have hInt := int32_source 0 id
    rw [List.append_nil] at hScan
    rw [escape_writeInt, int32Key?, hScan]
    exact hInt
  have hEntries := mapM_map_eq_some (l := map.entries)
    (f := fun field : List Char × Source => do
      some (← int32Key? field.1, ← value depth field.2))
    (fun entry => (escape (Digits.writeInt entry.1.toInt), source (toJson entry.2))) id
    (fun entry hEntry => by simp [h entry hEntry, hKey])
  simp only [source, int32Map, sourceFields_eq, List.map_map, Function.comp_def,
    String.toList_ofList]
  rw [hEntries]
  simp [SortedMap.ofList_entries]

/-- Among fields with different keys, each key has its own value. -/
theorem field?_eq_of_mem {fields : List (String × Json)} {field : String × Json}
    (hKeys : (fields.map (·.1)).Nodup) (h : field ∈ fields) :
    field? (fields.map fun field => (field.1.toList, source field.2)) field.1 =
      some (some (source field.2)) := by
  have hFilter : (fields.map fun field => (field.1.toList, source field.2)).filter
      (fun entry => entry.1 = field.1.toList) = [(field.1.toList, source field.2)] := by
    induction fields with
    | nil => simp at h
    | cons first rest ih =>
        rw [List.map_cons, List.nodup_cons] at hKeys
        rcases List.mem_cons.mp h with rfl | hRest
        · have hOthers : ∀ other ∈ rest, other.1 ≠ field.1 := fun other hOther hEq =>
            hKeys.1 (hEq ▸ List.mem_map_of_mem hOther)
          have hNone : (rest.map fun field => (field.1.toList, source field.2)).filter
              (fun entry => entry.1 = field.1.toList) = [] := by
            rw [List.filter_eq_nil_iff]
            intro entry hEntry
            obtain ⟨other, hOther, rfl⟩ := List.mem_map.mp hEntry
            simpa [String.toList_inj] using hOthers other hOther
          simp [hNone]
        · have hNe : first.1 ≠ field.1 := fun hEq =>
            hKeys.1 (hEq ▸ List.mem_map_of_mem hRest)
          simpa [List.filter_cons, String.toList_inj, hNe] using ih hKeys.2 hRest
  rw [field?, hFilter]

/-- The fields of an object with different keys are found in the order in which the keys are
declared. -/
theorem record_source {names : List String} {fields : List (String × Json)} (depth : Nat)
    (hNames : names = fields.map (·.1)) (hKeys : names.Nodup) :
    record names (depth + 1) (source (.object fields)) =
      some (depth, fields.map fun field => some (source field.2)) := by
  subst hNames
  have hUnescape := mapM_map_eq_some (l := fields)
    (f := fun field : List Char × Source => do some (← unescape? field.1, field.2))
    (fun field => (escape field.1.toList, source field.2))
    (fun field => (field.1.toList, source field.2)) (fun field _ => by simp)
  have hFields := mapM_map_eq_some (·.1) (fun field => some (source field.2))
    (fun field hField => field?_eq_of_mem hKeys hField)
  simp only [source, record, sourceFields_eq]
  rw [hUnescape]
  simp only [Option.bind_eq_bind, Option.bind_some]
  rw [hFields]
  rfl

end Reader

end ExportKit.Json
