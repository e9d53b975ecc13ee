import ExportKit.Proofs.Json.Reading

/-!
Values without a schema are read back, as long as they open no more levels than the reader may.
-/
namespace ExportKit.Json

mutual

/-- How many levels of lists and objects a value opens. -/
def depth : Json → Nat
  | .null => 0
  | .bool _ => 0
  | .int _ => 0
  | .double _ => 0
  | .string _ => 0
  | .array items => itemsDepth items + 1
  | .object fields => fieldsDepth fields + 1

def itemsDepth : List Json → Nat
  | [] => 0
  | item :: rest => max (depth item) (itemsDepth rest)

def fieldsDepth : List (String × Json) → Nat
  | [] => 0
  | (_, value) :: rest => max (depth value) (fieldsDepth rest)

end

theorem itemsDepth_le_iff {items : List Json} {n : Nat} :
    itemsDepth items ≤ n ↔ ∀ item ∈ items, item.depth ≤ n := by
  induction items with
  | nil => simp [itemsDepth]
  | cons item rest ih => rw [itemsDepth, Nat.max_le, ih, List.forall_mem_cons]

theorem fieldsDepth_le_iff {fields : List (String × Json)} {n : Nat} :
    fieldsDepth fields ≤ n ↔ ∀ field ∈ fields, field.2.depth ≤ n := by
  induction fields with
  | nil => simp [fieldsDepth]
  | cons field rest ih => rw [fieldsDepth, Nat.max_le, ih, List.forall_mem_cons]

/-- A list opens one level more than its items do. -/
@[simp] theorem depth_array_le_iff {items : List Json} {n : Nat} :
    (Json.array items).depth ≤ n + 1 ↔ ∀ item ∈ items, item.depth ≤ n := by
  rw [depth, Nat.add_le_add_iff_right, itemsDepth_le_iff]

/-- An object opens one level more than its fields do. -/
@[simp] theorem depth_object_le_iff {fields : List (String × Json)} {n : Nat} :
    (Json.object fields).depth ≤ n + 1 ↔ ∀ field ∈ fields, field.2.depth ≤ n := by
  rw [depth, Nat.add_le_add_iff_right, fieldsDepth_le_iff]

namespace Reader

/-- If each item is read as a value that is written as that item, so is the whole list. -/
theorem exists_mapM_eq_some {α β γ : Type} {f : β → Option γ} {l : List α} (g : α → β)
    (back : γ → α) (h : ∀ x ∈ l, ∃ z, f (g x) = some z ∧ back z = x) :
    ∃ values, (l.map g).mapM f = some values ∧ values.map back = l := by
  induction l with
  | nil => exact ⟨[], rfl, rfl⟩
  | cons x l ih =>
      obtain ⟨z, hz, hBack⟩ := h x List.mem_cons_self
      obtain ⟨values, hValues, hRest⟩ := ih fun y hy => h y (List.mem_cons_of_mem x hy)
      refine ⟨z :: values, ?_, by rw [List.map_cons, hBack, hRest]⟩
      rw [List.map_cons, List.mapM_cons, hz, hValues]
      rfl

/-- An integer of 64 bits is read back as such, and not as a double. -/
theorem freeNumber_numeralOf {value : Int} (low : Int64.minValue.toInt ≤ value)
    (high : value < UInt64.size) :
    freeNumber (numeralOf value) = some (.int value low high) := by
  rw [freeNumber, int?_numeralOf]
  exact dif_pos ⟨low, high⟩

/-- The fields of a free object are in key order, so that making a map of them changes nothing. -/
theorem json_object_ofList {entries : List (String × FreeJson)} {fields : List (String × Json)}
    (hFree : (Json.object fields).Free)
    (h : entries.map (fun entry => (entry.1, entry.2.json)) = fields) :
    (FreeJson.object (.ofList entries)).json = .object fields := by
  cases hFree with
  | object sorted _ =>
      rw [← h, List.pairwise_map] at sorted
      have hMap := SortedMap.ofList_entries ⟨entries, sorted⟩
      rw [hMap, ← h]
      rfl

/-- A free value without doubles is read as a value that is written in the same way. -/
theorem exists_free_source {json : Json} (hDiscrete : Discrete json) (hFree : json.Free)
    {depth : Nat} (hDepth : json.depth ≤ depth) :
    ∃ value, free depth (source json) = some value ∧ value.json = json := by
  induction hDiscrete generalizing depth with
  | null => exact ⟨.null, by rw [source, free], rfl⟩
  | bool value => exact ⟨.bool value, by rw [source, free], rfl⟩
  | int value =>
      cases hFree with
      | int low high =>
          refine ⟨.int value low high, ?_, rfl⟩
          rw [source, free, freeNumber_numeralOf low high]
  | string value => exact ⟨.string value, by simp [source, free], rfl⟩
  | @array items _ ih =>
      obtain ⟨depth, rfl⟩ : ∃ n, depth = n + 1 :=
        Nat.exists_eq_succ_of_ne_zero (by rintro rfl; simp [Json.depth] at hDepth)
      cases hFree with
      | array hItems =>
          rw [depth_array_le_iff] at hDepth
          obtain ⟨values, hValues, hBack⟩ := exists_mapM_eq_some source FreeJson.json
            fun item hItem => ih item hItem (hItems item hItem) (hDepth item hItem)
          refine ⟨.array values, ?_, congrArg Json.array hBack⟩
          rw [source, sourceItems_eq, free, hValues, Option.map_some]
  | @object fields _ ih =>
      obtain ⟨depth, rfl⟩ : ∃ n, depth = n + 1 :=
        Nat.exists_eq_succ_of_ne_zero (by rintro rfl; simp [Json.depth] at hDepth)
      rw [depth_object_le_iff] at hDepth
      have hField : ∀ field ∈ fields, ∃ entry : String × FreeJson,
          (do some (String.ofList (← unescape? (escape field.1.toList)),
            ← free depth (source field.2))) = some entry ∧
          (entry.1, entry.2.json) = field := by
        intro field hMem
        have hValueFree : field.2.Free := by
          cases hFree with
          | object _ hFields => exact hFields field hMem
        obtain ⟨value, hValue, hBack⟩ := ih field hMem hValueFree (hDepth field hMem)
        exact ⟨(field.1, value), by simp [hValue], by rw [hBack]⟩
      obtain ⟨entries, hEntries, hBack⟩ := exists_mapM_eq_some
        (f := fun field : List Char × Source => do
          some (String.ofList (← unescape? field.1), ← free depth field.2))
        (fun field : String × Json => (escape field.1.toList, source field.2))
        (fun entry => (entry.1, entry.2.json)) hField
      refine ⟨.object (.ofList entries), ?_, json_object_ofList hFree hBack⟩
      rw [source, sourceFields_eq, free, hEntries]
      rfl

/-- A value without a schema is read back, unless it holds doubles or opens too many levels. -/
theorem free_source (value : FreeJson) (hDiscrete : Discrete value.json) {depth : Nat}
    (hDepth : value.json.depth ≤ depth) : free depth (source value.json) = some value := by
  obtain ⟨value', hRead, hJson⟩ := exists_free_source hDiscrete value.free hDepth
  have hEq : value' = value := by
    cases value'
    cases value
    simpa using hJson
  rw [hRead, hEq]

end Reader

end ExportKit.Json
