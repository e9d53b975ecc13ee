import ExportKit.Mail.Envelope
import ExportKit.Proofs.Json.Free
import ExportKit.Proofs.Table.Documents

/-!
Every document is read back from its text as the value that was written, whatever texts, numbers
and lists its fields hold. Main statement: `document_of_text`.
-/
namespace ExportKit

open Json (Discrete source)
open Json.Reader

namespace Mail.Envelope

open Json (quote skipGaps scanFields scanValue)

theorem toList_text (envelope : Envelope) :
    envelope.text.toList =
      '\x7b' :: (quote "Data".toList ++ ':' :: (quote envelope.data.toList ++ ['\x7d'])) := by
  simp [text, toJson, Json.compact, Json.compactChars, Json.compactFields, Json.scalarText]

/-- The compact text of an envelope has the syntax tree of its document. -/
theorem ofText?_text (envelope : Envelope) :
    Json.Source.ofText? envelope.text.toList = some (source envelope.toJson) := by
  obtain ⟨fuel, hFuel⟩ : ∃ n, 2 * envelope.text.toList.length + 1 = n + 3 :=
    ⟨2 * envelope.text.toList.length - 2, by rw [toList_text, List.length_cons]; omega⟩
  have hValue : scanValue (fuel + 1) (skipGaps (quote envelope.data.toList ++ ['\x7d'])) =
      some (source (.string envelope.data), ['\x7d']) := by
    rw [Json.skipGaps_quote_append]
    exact Json.scanValue_quote fuel envelope.data.toList ['\x7d']
  have hFields : scanFields (fuel + 2)
      (quote "Data".toList ++ ':' :: (quote envelope.data.toList ++ ['\x7d'])) =
        some ([(Json.escape "Data".toList, source (.string envelope.data))], []) :=
    Json.scanFields_last (fuel + 1) "Data".toList hValue (by decide)
  have hObject : scanValue (fuel + 3)
      ('\x7b' :: (quote "Data".toList ++ ':' :: (quote envelope.data.toList ++ ['\x7d']))) =
        some (source envelope.toJson, []) := by
    refine (Json.scanValue_object (fuel + 2) (Json.skipGaps_quote_append _ _)).trans ?_
    exact congrArg (Option.map _) hFields
  rw [Json.Source.ofText?, hFuel, toList_text, Json.skipGaps_cons _ (by decide), hObject]
  rfl

/-- An envelope is read back from its document. -/
theorem reader_source (depth : Nat) (envelope : Envelope) :
    reader (depth + 1) (source envelope.toJson) = some envelope := by
  rw [reader, toJson, record_source]
  · simp [required]
  · rfl
  · decide

end Mail.Envelope

namespace Table.Metadata

/-- The values in the metadata of a table that have no schema of their own. -/
def freeValues (metadata : Metadata) : List FreeJson :=
  metadata.sortOrders.flatMap (·.fields) ++ metadata.statistics ++ metadata.partitionStatistics

/-- Metadata hold doubles only in values that have no schema. -/
theorem discrete_of_freeValues {metadata : Metadata}
    (h : ∀ value ∈ metadata.freeValues, Discrete value.json) : Discrete metadata.toJson := by
  simp only [freeValues, List.mem_append, List.mem_flatMap] at h
  apply discrete_toJson
  · intro order hOrder value hValue
    exact h value (.inl (.inl ⟨order, hOrder, hValue⟩))
  · intro value hValue
    exact h value (.inl (.inr hValue))
  · intro value hValue
    exact h value (.inr hValue)

/-- How deep the values without a schema may be in a document of a given depth: they stand below
four levels in a sort order and below two elsewhere. -/
theorem depth_of_freeValues {metadata : Metadata} {depth : Nat}
    (h : metadata.toJson.depth ≤ depth + 5) :
    (∀ order ∈ metadata.sortOrders, ∀ value ∈ order.fields, value.json.depth ≤ depth + 1) ∧
      (∀ value ∈ metadata.statistics, value.json.depth ≤ depth + 3) ∧
        ∀ value ∈ metadata.partitionStatistics, value.json.depth ≤ depth + 3 := by
  rw [toJson, Json.depth_object_le_iff] at h
  refine ⟨?_, ?_, ?_⟩
  · intro order hOrder value hValue
    have hOrders := h ("sort-orders", .array (metadata.sortOrders.map SortOrder.toJson)) (by simp)
    have hObject := Json.depth_array_le_iff.mp hOrders _ (List.mem_map_of_mem hOrder)
    rw [SortOrder.toJson, Json.depth_object_le_iff] at hObject
    have hFields := hObject ("fields", .array (order.fields.map (·.json))) (by simp)
    exact Json.depth_array_le_iff.mp hFields _ (List.mem_map_of_mem hValue)
  · intro value hValue
    have hValues := h ("statistics", .array (metadata.statistics.map (·.json))) (by simp)
    exact Json.depth_array_le_iff.mp hValues _ (List.mem_map_of_mem hValue)
  · intro value hValue
    have hValues := h ("partition-statistics",
      .array (metadata.partitionStatistics.map (·.json))) (by simp)
    exact Json.depth_array_le_iff.mp hValues _ (List.mem_map_of_mem hValue)

/-- Metadata whose document is not too deep is read back from it. -/
theorem reader_source_of_depth {metadata : Metadata} (depth : Nat)
    (hDiscrete : ∀ value ∈ metadata.freeValues, Discrete value.json)
    (hDepth : metadata.toJson.depth ≤ depth + 5) :
    reader (depth + 5) (source metadata.toJson) = some metadata := by
  obtain ⟨hOrders, hStatistics, hPartitionStatistics⟩ := depth_of_freeValues hDepth
  simp only [freeValues, List.mem_append, List.mem_flatMap] at hDiscrete
  apply reader_source
  · intro order hOrder value hValue
    exact free_source value (hDiscrete value (.inl (.inl ⟨order, hOrder, hValue⟩)))
      (hOrders order hOrder value hValue)
  · intro value hValue
    exact free_source value (hDiscrete value (.inl (.inr hValue))) (hStatistics value hValue)
  · intro value hValue
    exact free_source value (hDiscrete value (.inr hValue)) (hPartitionStatistics value hValue)

end Table.Metadata

open Table (Metadata Manifest ManifestList)
open Table.Documents (fileText run?_fileText)
open Mail (Envelope)

/-- Each document is read back from the text that is written for it: the metadata of a table if
the values without a schema in it hold no doubles and its document is no deeper than a reader
follows, and any manifest, manifest list and envelope. -/
theorem document_of_text :
    (∀ metadata : Metadata, (∀ value ∈ metadata.freeValues, Discrete value.json) →
      metadata.toJson.depth ≤ Json.maxDepth →
        run? Metadata.reader (fileText metadata.toJson) = some metadata) ∧
    (∀ manifest : Manifest, run? Manifest.reader (fileText manifest.toJson) = some manifest) ∧
    (∀ manifestList : ManifestList,
      run? ManifestList.reader (fileText manifestList.toJson) = some manifestList) ∧
    ∀ envelope : Envelope, run? Envelope.reader envelope.text = some envelope := by
  refine ⟨?_, ?_, ?_, ?_⟩
  · intro metadata hDiscrete hDepth
    exact run?_fileText (Metadata.discrete_of_freeValues hDiscrete)
      (Metadata.reader_source_of_depth 122 hDiscrete hDepth)
  · intro manifest
    exact run?_fileText manifest.discrete_toJson (Manifest.reader_source 122 manifest)
  · intro manifestList
    exact run?_fileText manifestList.discrete_toJson
      (ManifestList.reader_source 124 manifestList)
  · intro envelope
    rw [run?, Envelope.ofText?_text]
    exact Envelope.reader_source 126 envelope

/-- Metadata whose fields hold what a text or a number is most likely to lose: control characters,
escapes, the least and the greatest integers, repeated and empty lists, and nested values without
a schema. -/
def crowdedMetadata : Metadata where
  formatVersion := 255
  tableUuid := ⟨.replicate 32 (Fin.last 15)⟩
  location := "a\"b\\c\n\x00\x1f\x7fé\u2028"
  lastSequenceNumber := Int64.minValue
  lastUpdatedMs := Int64.maxValue
  lastColumnId := Int32.minValue
  currentSchemaId := Int32.maxValue
  schemas := [⟨-1, [⟨7, "", true, .binary⟩, ⟨7, "", false, .long⟩]⟩, ⟨-1, []⟩]
  defaultSpecId := 0
  partitionSpecs := [⟨0, [⟨1, 2, "x", "bucket[0]"⟩]⟩]
  lastPartitionId := 0
  defaultSortOrderId := 0
  sortOrders :=
    [⟨0, [.array [.array [], .null], .int (-9223372036854775808) (by decide) (by decide)]⟩, ⟨3, []⟩]
  properties := .ofList [("b", "1"), ("", "2")]
  currentSnapshotId := 0
  refs := .ofList [("main", ⟨5⟩)]
  snapshots := [⟨1, 5, -1, ⟨18446744073709551615, 0, 1, 2⟩, "list"⟩]
  statistics := [.object ⟨[("", .string "\t"), ("k", .bool true)], by decide⟩, .null]
  partitionStatistics := [.int 18446744073709551615 (by decide) (by decide)]

/-- The crowded metadata hold no doubles and are not too deep, and are read back from their text. -/
theorem document_of_crowdedMetadata :
    (∀ value ∈ crowdedMetadata.freeValues, Discrete value.json) ∧
      crowdedMetadata.toJson.depth ≤ Json.maxDepth ∧
        run? Metadata.reader (fileText crowdedMetadata.toJson) = some crowdedMetadata := by
  have hDiscrete : ∀ value ∈ crowdedMetadata.freeValues, Discrete value.json := by
    simp [crowdedMetadata, Metadata.freeValues, FreeJson.array, FreeJson.object, FreeJson.string,
      FreeJson.bool, FreeJson.null, FreeJson.int]
  have hDepth : crowdedMetadata.toJson.depth ≤ Json.maxDepth := by
    decide +kernel
  exact ⟨hDiscrete, hDepth, document_of_text.1 crowdedMetadata hDiscrete hDepth⟩

end ExportKit
