import ExportKit.Proofs.Json.Reading
import ExportKit.Proofs.Text.Utf8
import ExportKit.Proofs.Text.Uuid
import ExportKit.Table.Documents

/-!
The documents of a table are read back as they were written.
-/
namespace ExportKit.Table

open Json (source Discrete)
open Json.Reader

theorem PartitionField.reader_source (depth : Nat) (field : PartitionField) :
    reader (depth + 1) (source field.toJson) = some field := by
  rw [reader, toJson, record_source]
  · simp [required]
  · rfl
  · decide

theorem PartitionSpec.reader_source (depth : Nat) (spec : PartitionSpec) :
    reader (depth + 3) (source spec.toJson) = some spec := by
  have hFields := list_source PartitionField.toJson spec.fields
    fun field _ => PartitionField.reader_source depth field
  rw [reader, toJson, record_source]
  · simp [required, hFields]
  · rfl
  · decide

theorem SchemaField.reader_source (depth : Nat) (field : SchemaField) :
    reader (depth + 1) (source field.toJson) = some field := by
  have hType : word ColumnType.words depth (source (.string field.type.word)) =
      some field.type := by
    rw [word_source]
    cases field.type <;> rfl
  rw [reader, toJson, record_source]
  · simp [required, hType]
  · rfl
  · decide

theorem Schema.reader_source (depth : Nat) (schema : Schema) :
    reader (depth + 3) (source schema.toJson) = some schema := by
  have hFields := list_source SchemaField.toJson schema.fields
    fun field _ => SchemaField.reader_source depth field
  have hType : word [("struct", ())] (depth + 2) (source (.string "struct")) = some () := by
    rw [word_source]
    rfl
  rw [reader, toJson, record_source]
  · simp [required, hFields, hType]
  · rfl
  · decide

/-- A value that may be absent is read back, absent or not. -/
theorem optional_source {α : Type} {reader : Json.Reader α} {depth : Nat} {toJson : α → Json}
    (value? : Option α) (h : ∀ value ∈ value?, reader depth (source (toJson value)) = some value)
    (hNull : ∀ value, source (toJson value) ≠ .null) :
    optional reader depth (some (source (nullableJson toJson value?))) = some value? := by
  cases value? with
  | none => rfl
  | some value =>
      have hValue := h value rfl
      have hSource := hNull value
      simp only [nullableJson, Json.Reader.optional]
      generalize source (toJson value) = json at hValue hSource
      cases json <;> simp_all [Json.Reader.nullable]

/-- A map keyed by field ids that may be absent is read back, absent or not. -/
theorem optional_fieldMap_source {α : Type} {reader : Json.Reader α} {depth : Nat}
    {toJson : α → Json} (map? : Option (SortedMap Int32 α))
    (h : ∀ value, reader depth (source (toJson value)) = some value) :
    optional (int32Map reader) (depth + 1)
      (some (source (nullableJson (fieldMapJson toJson) map?))) = some map? :=
  optional_source map? (fun map _ => int32Map_source toJson map fun entry _ => h entry.2)
    fun map => by simp [fieldMapJson, source]

@[simp] theorem uint64_countJson (depth : Nat) (n : UInt64) :
    uint64 depth (source (countJson n)) = some n :=
  uint64_source depth n

-- Stated for `>>=`: within `Option.bind` the later fields of a record would be rewritten once for
-- each of the earlier ones.
theorem some_bind {α β : Type} (value : α) (next : α → Option β) :
    (some value >>= next) = next value :=
  rfl

theorem ManifestDataFile.reader_source (depth : Nat) (file : ManifestDataFile) :
    reader (depth + 2) (source file.toJson) = some file := by
  have hPartition : partitionReader (depth + 1)
      (source (.object [("height_bucket", countJson file.heightBucket)])) =
        some file.heightBucket := by
    rw [partitionReader, record_source]
    · simp [required]
    · rfl
    · decide
  have hCounts (map? : Option (SortedMap Int32 UInt64)) : optional (int32Map uint64) (depth + 1)
      (some (source (nullableJson (fieldMapJson countJson) map?))) = some map? :=
    optional_fieldMap_source map? (uint64_source depth)
  have hTexts (map? : Option (SortedMap Int32 String)) : optional (int32Map string) (depth + 1)
      (some (source (nullableJson (fieldMapJson .string) map?))) = some map? :=
    optional_fieldMap_source map? (string_source depth)
  have hKey : optional string (depth + 1)
      (some (source (nullableJson .string file.keyMetadata))) = some file.keyMetadata :=
    optional_source _ (fun key _ => string_source (depth + 1) key) (by simp [source])
  have hOffsets : optional (list int64) (depth + 1) (some (source (nullableJson
      (fun offsets : List Int64 => .array (offsets.map fun n => .int n.toInt))
        file.splitOffsets))) = some file.splitOffsets :=
    optional_source _ (fun offsets _ => list_source _ offsets fun n _ => int64_source depth n)
      (by simp [source])
  have hIds : optional (list int32) (depth + 1) (some (source (nullableJson
      (fun ids : List Int32 => .array (ids.map fun n => .int n.toInt))
        file.equalityIds))) = some file.equalityIds :=
    optional_source _ (fun ids _ => list_source _ ids fun n _ => int32_source depth n)
      (by simp [source])
  have hContent : word [("DATA", ())] (depth + 1) (source (.string "DATA")) = some () := by
    rw [word_source]
    rfl
  have hFormat : word [("PARQUET", ())] (depth + 1) (source (.string "PARQUET")) = some () := by
    rw [word_source]
    rfl
  rw [reader, toJson, record_source]
  · simp only [List.map_cons, List.map_nil, required, some_bind, hContent, hFormat, string_source,
      hPartition, uint64_countJson, hCounts, hTexts, hKey, hOffsets, hIds, int32_source]
  · rfl
  · decide

theorem ManifestEntry.reader_source (depth : Nat) (entry : ManifestEntry) :
    reader (depth + 3) (source entry.toJson) = some entry := by
  have hNumber (n? : Option Int64) : optional int64 (depth + 2)
      (some (source (nullableJson (fun n : Int64 => .int n.toInt) n?))) = some n? :=
    optional_source n? (fun n _ => int64_source (depth + 2) n) (by simp [source])
  have hFile := ManifestDataFile.reader_source depth entry.dataFile
  rw [reader, toJson, record_source]
  · simp [required, hNumber, hFile]
  · rfl
  · decide

/-- A manifest is read back from its document. -/
theorem Manifest.reader_source (depth : Nat) (manifest : Manifest) :
    reader (depth + 5) (source manifest.toJson) = some manifest := by
  have hEntries := list_source ManifestEntry.toJson manifest.entries
    fun entry _ => ManifestEntry.reader_source depth entry
  rw [reader, toJson, record_source]
  · simp [required, hEntries]
  · rfl
  · decide

theorem ManifestFile.reader_source (depth : Nat) (file : ManifestFile) :
    reader (depth + 1) (source file.toJson) = some file := by
  have hContent : word [("data", ())] depth (source (.string "data")) = some () := by
    rw [word_source]
    rfl
  rw [reader, toJson, record_source]
  · simp only [List.map_cons, List.map_nil, required, some_bind, hContent, string_source, int64_source,
      int32_source, uint64_countJson]
  · rfl
  · decide

/-- A manifest list is read back from its document. -/
theorem ManifestList.reader_source (depth : Nat) (manifestList : ManifestList) :
    reader (depth + 3) (source manifestList.toJson) = some manifestList := by
  have hManifests := list_source ManifestFile.toJson manifestList.manifests
    fun file _ => ManifestFile.reader_source depth file
  rw [reader, toJson, record_source]
  · simp [required, hManifests]
  · rfl
  · decide

theorem SnapshotSummary.reader_source (depth : Nat) (summary : SnapshotSummary) :
    reader (depth + 1) (source summary.toJson) = some summary := by
  have hOperation : word [("append", ())] depth (source (.string "append")) = some () := by
    rw [word_source]
    rfl
  rw [reader, toJson, record_source]
  · simp [required, countJsonText, hOperation]
  · rfl
  · decide

theorem Snapshot.reader_source (depth : Nat) (snapshot : Snapshot) :
    reader (depth + 2) (source snapshot.toJson) = some snapshot := by
  have hSummary := SnapshotSummary.reader_source depth snapshot.summary
  rw [reader, toJson, record_source]
  · simp [required, hSummary]
  · rfl
  · decide

theorem SnapshotRef.reader_source (depth : Nat) (ref : SnapshotRef) :
    reader (depth + 1) (source ref.toJson) = some ref := by
  have hType : word [("branch", ())] depth (source (.string "branch")) = some () := by
    rw [word_source]
    rfl
  rw [reader, toJson, record_source]
  · simp [required, hType]
  · rfl
  · decide

/-- A sort order is read back as far as its fields are. -/
theorem SortOrder.reader_source {depth : Nat} (order : SortOrder)
    (hFields : ∀ value ∈ order.fields, free depth (source value.json) = some value) :
    reader (depth + 2) (source order.toJson) = some order := by
  have hFields := list_source (fun value : FreeJson => value.json) order.fields hFields
  rw [reader, toJson, record_source]
  · simp [required, hFields]
  · rfl
  · decide

/-- Table metadata is read back from its document, if the values without a schema in it are. -/
theorem Metadata.reader_source {depth : Nat} (metadata : Metadata)
    (hOrders : ∀ order ∈ metadata.sortOrders, ∀ value ∈ order.fields,
      free (depth + 1) (source value.json) = some value)
    (hStatistics : ∀ value ∈ metadata.statistics,
      free (depth + 3) (source value.json) = some value)
    (hPartitionStatistics : ∀ value ∈ metadata.partitionStatistics,
      free (depth + 3) (source value.json) = some value) :
    reader (depth + 5) (source metadata.toJson) = some metadata := by
  have hUuid : uuidReader (depth + 4) (source (.string metadata.tableUuid.text)) =
      some metadata.tableUuid := by
    simp [uuidReader, Uuid.text, Uuid.ofChars?_chars]
  have hSchemas := list_source Schema.toJson metadata.schemas
    fun schema _ => Schema.reader_source depth schema
  have hSpecs := list_source PartitionSpec.toJson metadata.partitionSpecs
    fun spec _ => PartitionSpec.reader_source depth spec
  have hSortOrders := list_source SortOrder.toJson metadata.sortOrders
    fun order hOrder => SortOrder.reader_source order (hOrders order hOrder)
  have hProperties := textMap_source .string metadata.properties
    fun entry _ => string_source (depth + 3) entry.2
  have hRefs := textMap_source SnapshotRef.toJson metadata.refs
    fun entry _ => SnapshotRef.reader_source (depth + 2) entry.2
  have hSnapshots := list_source Snapshot.toJson metadata.snapshots
    fun snapshot _ => Snapshot.reader_source (depth + 1) snapshot
  have hStatistics := list_source (fun value : FreeJson => value.json) metadata.statistics
    hStatistics
  have hPartitionStatistics := list_source (fun value : FreeJson => value.json)
    metadata.partitionStatistics hPartitionStatistics
  rw [reader, toJson, record_source]
  · simp only [textMapJson, List.map_cons, List.map_nil, required, some_bind, uint8_source, hUuid,
      string_source, int64_source, int32_source, hSchemas, hSpecs, hSortOrders, hProperties, hRefs,
      hSnapshots, hStatistics, hPartitionStatistics]
  · rfl
  · decide

/-! None of the documents holds a double, unless a value without a schema does. -/

theorem discrete_nullableJson {α : Type} {toJson : α → Json} (value? : Option α)
    (h : ∀ value, Discrete (toJson value)) : Discrete (nullableJson toJson value?) := by
  cases value? with
  | none => exact .null
  | some value => exact h value

theorem discrete_optional_fieldMapJson {α : Type} {toJson : α → Json}
    (map? : Option (SortedMap Int32 α)) (h : ∀ value, Discrete (toJson value)) :
    Discrete (nullableJson (fieldMapJson toJson) map?) :=
  discrete_nullableJson map? fun map => by
    rw [fieldMapJson, Json.discrete_object_iff, List.forall_mem_map]
    exact fun entry _ => h entry.2

theorem ManifestDataFile.discrete_toJson (file : ManifestDataFile) : Discrete file.toJson := by
  have hCounts (map? : Option (SortedMap Int32 UInt64)) :
      Discrete (nullableJson (fieldMapJson countJson) map?) :=
    discrete_optional_fieldMapJson map? fun n => .int n.toNat
  have hTexts (map? : Option (SortedMap Int32 String)) :
      Discrete (nullableJson (fieldMapJson .string) map?) :=
    discrete_optional_fieldMapJson map? .string
  have hKey : Discrete (nullableJson .string file.keyMetadata) :=
    discrete_nullableJson _ .string
  have hOffsets : Discrete (nullableJson
      (fun offsets : List Int64 => .array (offsets.map fun n => .int n.toInt))
        file.splitOffsets) :=
    discrete_nullableJson _ (by simp)
  have hIds : Discrete (nullableJson
      (fun ids : List Int32 => .array (ids.map fun n => .int n.toInt)) file.equalityIds) :=
    discrete_nullableJson _ (by simp)
  simp [toJson, countJson, hCounts, hTexts, hKey, hOffsets, hIds]

theorem Manifest.discrete_toJson (manifest : Manifest) : Discrete manifest.toJson := by
  have hNumber (n? : Option Int64) :
      Discrete (nullableJson (fun n : Int64 => .int n.toInt) n?) :=
    discrete_nullableJson n? fun n => .int n.toInt
  simp [toJson, ManifestEntry.toJson, hNumber, ManifestDataFile.discrete_toJson]

theorem ManifestList.discrete_toJson (manifestList : ManifestList) :
    Discrete manifestList.toJson := by
  simp [toJson, ManifestFile.toJson, countJson]

/-- Metadata hold doubles only where fields without a schema do. -/
theorem Metadata.discrete_toJson (metadata : Metadata)
    (hOrders : ∀ order ∈ metadata.sortOrders, ∀ value ∈ order.fields, Discrete value.json)
    (hStatistics : ∀ value ∈ metadata.statistics, Discrete value.json)
    (hPartitionStatistics : ∀ value ∈ metadata.partitionStatistics, Discrete value.json) :
    Discrete metadata.toJson := by
  have hSummary (summary : SnapshotSummary) : Discrete summary.toJson := by
    simp [SnapshotSummary.toJson, SnapshotSummary.countJsonText]
  have hOrders : ∀ order ∈ metadata.sortOrders, Discrete order.toJson := by
    simpa [SortOrder.toJson] using hOrders
  have hSpec (spec : PartitionSpec) : Discrete spec.toJson := by
    simp [PartitionSpec.toJson, PartitionField.toJson]
  have hSchema (schema : Schema) : Discrete schema.toJson := by
    simp [Schema.toJson, SchemaField.toJson]
  have hSnapshot (snapshot : Snapshot) : Discrete snapshot.toJson := by
    simp [Snapshot.toJson, hSummary]
  have hProperties : Discrete (textMapJson .string metadata.properties) := by
    rw [textMapJson, Json.discrete_object_iff, List.forall_mem_map]
    exact fun entry _ => .string entry.2
  have hRefs : Discrete (textMapJson SnapshotRef.toJson metadata.refs) := by
    rw [textMapJson, Json.discrete_object_iff, List.forall_mem_map]
    simp [SnapshotRef.toJson]
  simpa [toJson, hSpec, hSchema, hSnapshot, hProperties, hRefs] using
    ⟨hOrders, hStatistics, hPartitionStatistics⟩

namespace Documents

/-- What a reader makes of the content of a file. -/
def readContent? {α : Type} (reader : Json.Reader α) (content : List UInt8) : Option α :=
  (Utf8.decode? content).bind fun text => run? reader (String.ofList text)

/-- The text of a document is read as the value whose document it is. -/
theorem run?_fileText {α : Type} {reader : Json.Reader α} {document : Json} {value : α}
    (hDiscrete : Discrete document) (hReader : reader Json.maxDepth (source document) = some value) :
    run? reader (fileText document) = some value := by
  have hText : Json.Source.ofText? (Json.prettyChars 0 document ++ ['\n']) =
      some (source document) :=
    Json.ofText?_pretty hDiscrete (by decide) (.cons _)
  rw [run?, fileText, Json.pretty, String.toList_append, String.toList_ofList]
  exact (congrArg (·.bind (reader Json.maxDepth)) hText).trans hReader

/-- The value is read back from the content of a file that holds its text. -/
theorem readContent?_fileText {α : Type} {reader : Json.Reader α} {document : Json} {value : α}
    (hDiscrete : Discrete document) (hReader : reader Json.maxDepth (source document) = some value) :
    readContent? reader (Utf8.encode (fileText document).toList) = some value := by
  rw [readContent?, Utf8.decode?_encode, Option.bind_some, String.ofList_toList]
  exact run?_fileText hDiscrete hReader

/-- The file of a manifest reads as that manifest. -/
theorem readContent?_manifest (manifest : Manifest) :
    readContent? Manifest.reader (Utf8.encode (fileText manifest.toJson).toList) = some manifest :=
  readContent?_fileText manifest.discrete_toJson (Manifest.reader_source 122 manifest)

/-- The file of a manifest list reads as that list. -/
theorem readContent?_manifestList (manifestList : ManifestList) :
    readContent? ManifestList.reader (Utf8.encode (fileText manifestList.toJson).toList) =
      some manifestList :=
  readContent?_fileText manifestList.discrete_toJson (ManifestList.reader_source 124 manifestList)

/-- The file of the metadata of an exported table reads as that metadata. -/
theorem readContent?_metadata (kind : Kind) (location : String) (spec : PartitionSpec)
    (files : List DataFile) (stamp : Stamp) :
    readContent? Metadata.reader (Utf8.encode
      (fileText (Metadata.ofFiles kind location spec files stamp).toJson).toList) =
        some (Metadata.ofFiles kind location spec files stamp) := by
  apply readContent?_fileText
  · apply Metadata.discrete_toJson <;> simp [Metadata.ofFiles]
  · apply Metadata.reader_source <;> simp [Metadata.ofFiles]

end Documents

end ExportKit.Table
