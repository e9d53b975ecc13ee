import ExportKit.Proofs.SortedMap
import ExportKit.Proofs.Warehouse.Scan
import ExportKit.Warehouse.Generation
import Mathlib.Algebra.Order.BigOperators.Group.List
import Mathlib.Algebra.Order.Group.Nat

/-!
What the inspection of a data file finds: of each field of the table the totals over all column
chunks that hold values of it, whatever the order of the chunks is. Main statement:
`summarizes_footer`.
-/
namespace ExportKit

namespace Table

open Parquet (ColumnChunk Footer RowGroup)

variable {schema : Schema} {footer : Footer} {id : Int32} {chunk : ColumnChunk}

namespace Schema

/-- A field is the first of a schema that has a given name. -/
def HasFirst (schema : Schema) (name : String) (field : SchemaField) : Prop :=
  field.name = name ∧ ∃ before after, schema.fields = before ++ field :: after ∧
    ∀ other ∈ before, other.name ≠ name

/-- The id that is found for a name is that of the first field with the name. -/
theorem fieldId?_eq_some_iff {name : String} :
    schema.fieldId? name = some id ↔ ∃ field, schema.HasFirst name field ∧ field.id = id := by
  simp only [fieldId?, Option.map_eq_some_iff, List.find?_eq_some_iff_append, HasFirst,
    decide_eq_true_eq, Bool.not_eq_true', decide_eq_false_iff_not]

end Schema

/-- A column chunk holds values of the field with a given id: the first name of its path is the name
of a column, and the first column of that name has the id. -/
def HoldsField (schema : Schema) (id : Int32) (chunk : ColumnChunk) : Prop :=
  ∃ name rest field, chunk.path = name :: rest ∧ schema.HasFirst name field ∧ field.id = id

/-- The field of a chunk is the one whose values the chunk holds. -/
theorem chunkField?_eq_some_iff : chunkField? schema chunk = some id ↔ HoldsField schema id chunk := by
  rw [chunkField?, HoldsField]
  cases chunk.path with
  | nil => simp
  | cons name rest => simp [Schema.fieldId?_eq_some_iff]

instance : DecidablePred (HoldsField schema id) := fun _ =>
  decidable_of_iff _ chunkField?_eq_some_iff

/-- Some column chunk holds values of a field. -/
def Occurs (schema : Schema) (footer : Footer) (id : Int32) : Prop :=
  ∃ group ∈ footer.rowGroups, ∃ chunk ∈ group, HoldsField schema id chunk

/-- What a count comes to over all column chunks that hold values of a field, without a bound. -/
def totalOf (schema : Schema) (footer : Footer) (id : Int32) (count : ColumnChunk → Nat) : Nat :=
  ((footer.rowGroups.flatten.filter (HoldsField schema id)).map count).sum

/-- The bytes of a column chunk, of which there are none if their number is negative. -/
def chunkBytes (chunk : ColumnChunk) : Nat := chunk.compressedSize.toInt.toNat

/-- The values of a column chunk, of which there are none if their number is negative. -/
def chunkValues (chunk : ColumnChunk) : Nat := chunk.valueCount.toInt.toNat

/-- The nulls of a column chunk, as far as they are known. -/
def chunkNulls (chunk : ColumnChunk) : Nat := (chunk.nullCount.map UInt64.toNat).getD 0

/-- No total reaches 2 ^ 64. -/
structure FitsTotals (schema : Schema) (footer : Footer) : Prop where
  bytes : ∀ id, totalOf schema footer id chunkBytes < UInt64.size
  values : ∀ id, totalOf schema footer id chunkValues < UInt64.size
  nulls : ∀ id, totalOf schema footer id chunkNulls < UInt64.size

/-- The chunks of a field are some of all chunks. -/
theorem totalOf_le (schema : Schema) (footer : Footer) (id : Int32) (count : ColumnChunk → Nat) :
    totalOf schema footer id count ≤ (footer.rowGroups.flatten.map count).sum := by
  have hSublist := (List.filter_sublist (l := footer.rowGroups.flatten)
    (p := fun chunk => HoldsField schema id chunk)).map count
  exact hSublist.sum_le_sum fun _ _ => Nat.zero_le _

/-- No total reaches 2 ^ 64 if the totals over all chunks do not. -/
theorem FitsTotals.of_all
    (hBytes : (footer.rowGroups.flatten.map chunkBytes).sum < UInt64.size)
    (hValues : (footer.rowGroups.flatten.map chunkValues).sum < UInt64.size)
    (hNulls : (footer.rowGroups.flatten.map chunkNulls).sum < UInt64.size) :
    FitsTotals schema footer :=
  ⟨fun _ => Nat.lt_of_le_of_lt (totalOf_le ..) hBytes,
    fun _ => Nat.lt_of_le_of_lt (totalOf_le ..) hValues,
    fun _ => Nat.lt_of_le_of_lt (totalOf_le ..) hNulls⟩

/-- Statistics that say what a footer says about the fields of a table. The number of nulls of a
field is among them if all of its column chunks have one. -/
structure Summarizes (schema : Schema) (footer : Footer) (stats : FileStats) : Prop where
  recordCount : stats.recordCount.toNat = footer.rowCount.toInt.toNat
  columnSizes_keys : ∀ id, id ∈ stats.columnSizes.keys ↔ Occurs schema footer id
  columnSizes : ∀ id size, stats.columnSizes.get? id = some size →
    size.toNat = totalOf schema footer id chunkBytes
  valueCounts_keys : ∀ id, id ∈ stats.valueCounts.keys ↔ Occurs schema footer id
  valueCounts : ∀ id count, stats.valueCounts.get? id = some count →
    count.toNat = totalOf schema footer id chunkValues
  nullValueCounts_keys : ∀ id, id ∈ stats.nullValueCounts.keys ↔ Occurs schema footer id ∧
    ∀ group ∈ footer.rowGroups, ∀ chunk ∈ group, HoldsField schema id chunk →
      chunk.nullCount.isSome
  nullValueCounts : ∀ id count, stats.nullValueCounts.get? id = some count →
    count.toNat = totalOf schema footer id chunkNulls

/-! Totals of single counts. -/

/-- The known chunks are those that hold values of a field. -/
theorem mem_knownChunks {entry : Int32 × ColumnChunk} : entry ∈ knownChunks schema footer ↔
    ∃ group ∈ footer.rowGroups, entry.2 ∈ group ∧ HoldsField schema entry.1 entry.2 := by
  simp only [knownChunks, List.mem_filterMap, List.mem_flatten, Option.map_eq_some_iff,
    chunkField?_eq_some_iff]
  constructor
  · rintro ⟨chunk, ⟨group, hGroup, hChunk⟩, id, hHolds, rfl⟩
    exact ⟨group, hGroup, hChunk, hHolds⟩
  · rintro ⟨group, hGroup, hChunk, hHolds⟩
    exact ⟨entry.2, ⟨group, hGroup, hChunk⟩, entry.1, hHolds, rfl⟩

/-- The sum of a count over the known chunks of a field is its total. -/
theorem sumOf_knownChunks (count : ColumnChunk → UInt64) (id : Int32) :
    SortedMap.sumOf ((knownChunks schema footer).map fun entry => (entry.1, count entry.2)) id =
      totalOf schema footer id fun chunk => (count chunk).toNat := by
  rw [knownChunks, totalOf]
  induction footer.rowGroups.flatten with
  | nil => rfl
  | cons chunk rest ih =>
      cases hField : chunkField? schema chunk with
      | none =>
          have hOther : ¬HoldsField schema id chunk := by
            rw [← chunkField?_eq_some_iff, hField]
            simp
          rw [List.filterMap_cons_none (by rw [hField, Option.map_none]), ih,
            List.filter_cons_of_neg (by simpa using hOther)]
      | some other =>
          have hHolds : HoldsField schema id chunk ↔ other = id := by
            rw [← chunkField?_eq_some_iff, hField, Option.some_inj]
          rw [List.filterMap_cons_some (by rw [hField, Option.map_some]), List.map_cons,
            SortedMap.sumOf_cons, ih]
          by_cases hOther : other = id
          · rw [if_pos hOther, List.filter_cons_of_pos (by simpa using hHolds.mpr hOther),
              List.map_cons, List.sum_cons]
          · rw [if_neg hOther, List.filter_cons_of_neg (by simpa using mt hHolds.mp hOther),
              Nat.zero_add]

/-- The totals of a count for the fields of a table. -/
def fieldTotals (schema : Schema) (footer : Footer) (count : ColumnChunk → UInt64) :
    SortedMap Int32 UInt64 :=
  .totals ((knownChunks schema footer).map fun entry => (entry.1, count entry.2))

/-- The totals of a count have an entry for each field that occurs. -/
theorem get?_fieldTotals_eq_some_iff {count : ColumnChunk → UInt64} {total : UInt64} :
    (fieldTotals schema footer count).get? id = some total ↔
      Occurs schema footer id ∧
        UInt64.ofNat (totalOf schema footer id fun chunk => (count chunk).toNat) = total := by
  have hOccurs : id ∈ ((knownChunks schema footer).map fun entry =>
      (entry.1, count entry.2)).map (·.1) ↔ Occurs schema footer id := by
    simp only [List.map_map, List.mem_map, Function.comp_apply, mem_knownChunks, Occurs]
    constructor
    · rintro ⟨entry, ⟨group, hGroup, hChunk, hHolds⟩, rfl⟩
      exact ⟨group, hGroup, entry.2, hChunk, hHolds⟩
    · rintro ⟨group, hGroup, chunk, hChunk, hHolds⟩
      exact ⟨(id, chunk), ⟨group, hGroup, hChunk, hHolds⟩, rfl⟩
  rw [fieldTotals, SortedMap.get?_totals, Option.ite_none_right_eq_some, hOccurs,
    sumOf_knownChunks, Option.some_inj]

/-- The fields with totals are those that occur. -/
theorem mem_keys_fieldTotals_iff {count : ColumnChunk → UInt64} :
    id ∈ (fieldTotals schema footer count).keys ↔ Occurs schema footer id := by
  rw [SortedMap.mem_keys_iff]
  simp only [get?_fieldTotals_eq_some_iff, exists_and_left, exists_eq', and_true]

/-- A total below 2 ^ 64 is the entry that its field has. -/
theorem toNat_of_get?_fieldTotals {count : ColumnChunk → UInt64} {measure : ColumnChunk → Nat}
    {total : UInt64} (hCount : ∀ chunk, (count chunk).toNat = measure chunk)
    (hFits : totalOf schema footer id measure < UInt64.size)
    (h : (fieldTotals schema footer count).get? id = some total) :
    total.toNat = totalOf schema footer id measure := by
  obtain ⟨-, rfl⟩ := get?_fieldTotals_eq_some_iff.mp h
  rw [funext hCount]
  exact UInt64.toNat_ofNat_of_lt' hFits

theorem toNat_clampCount (count : Int64) : (clampCount count).toNat = count.toInt.toNat := by
  have hCount := count.toInt_lt
  apply UInt64.toNat_ofNat_of_lt'
  have hSize : UInt64.size = 2 ^ 64 := rfl
  omega

theorem toNat_getD_nullCount (chunk : ColumnChunk) :
    (chunk.nullCount.getD 0).toNat = chunkNulls chunk := by
  rw [chunkNulls]
  cases chunk.nullCount <;> rfl

/-- Whether each column chunk that holds values of a field has a number of nulls. -/
def knowsNulls (schema : Schema) (footer : Footer) (id : Int32) : Bool :=
  (knownChunks schema footer).all fun entry => entry.1 ≠ id || entry.2.nullCount.isSome

/-- The nulls of a field are known just if each of its chunks states them. -/
theorem knowsNulls_iff : knowsNulls schema footer id ↔
    ∀ group ∈ footer.rowGroups, ∀ chunk ∈ group, HoldsField schema id chunk →
      chunk.nullCount.isSome := by
  simp only [knowsNulls, List.all_eq_true, mem_knownChunks, Bool.or_eq_true, decide_eq_true_eq]
  constructor
  · intro h group hGroup chunk hChunk hHolds
    exact (h (id, chunk) ⟨group, hGroup, hChunk, hHolds⟩).resolve_left (not_not_intro rfl)
  · rintro h ⟨other, chunk⟩ ⟨group, hGroup, hChunk, hHolds⟩
    by_cases hOther : other = id
    · exact .inr (h group hGroup chunk hChunk (hOther ▸ hHolds))
    · exact .inl hOther

/-- The statistics of a footer, with one total for each field that occurs. -/
theorem ofFooter_eq (schema : Schema) (footer : Footer) : FileStats.ofFooter schema footer =
    { recordCount := clampCount footer.rowCount
      columnSizes := fieldTotals schema footer fun chunk => clampCount chunk.compressedSize
      valueCounts := fieldTotals schema footer fun chunk => clampCount chunk.valueCount
      nullValueCounts := (fieldTotals schema footer fun chunk =>
        chunk.nullCount.getD 0).filterKeys (knowsNulls schema footer) } :=
  rfl

/-- Where no total overflows, the statistics say what the footer says. -/
theorem summarizes_ofFooter (h : FitsTotals schema footer) :
    Summarizes schema footer (FileStats.ofFooter schema footer) := by
  rw [ofFooter_eq]
  constructor
  case recordCount => exact toNat_clampCount _
  case columnSizes_keys | valueCounts_keys => exact fun id => mem_keys_fieldTotals_iff
  case columnSizes =>
    exact fun id _ => toNat_of_get?_fieldTotals (fun _ => toNat_clampCount _) (h.bytes id)
  case valueCounts =>
    exact fun id _ => toNat_of_get?_fieldTotals (fun _ => toNat_clampCount _) (h.values id)
  case nullValueCounts_keys =>
    intro id
    rw [SortedMap.mem_keys_iff, ← knowsNulls_iff, and_comm]
    simp only [SortedMap.get?_filterKeys, Option.ite_none_right_eq_some,
      get?_fieldTotals_eq_some_iff, exists_and_left, exists_eq', and_true]
  case nullValueCounts =>
    intro id count hCount
    rw [SortedMap.get?_filterKeys, Option.ite_none_right_eq_some] at hCount
    exact toNat_of_get?_fieldTotals toNat_getD_nullCount (h.nulls id) hCount.2

/-! Order. -/

/-- A row group with its column chunks in another order, and with chunks of columns that the table
does not have added. -/
def Rearranges (schema : Schema) (group other : RowGroup) : Prop :=
  ∃ unknown : List ColumnChunk, (∀ chunk ∈ unknown, ∀ id, ¬HoldsField schema id chunk) ∧
    other.Perm (group ++ unknown)

/-- A footer with its row groups in another order, each of them rearranged. -/
def RearrangesFooter (schema : Schema) (footer other : Footer) : Prop :=
  other.rowCount = footer.rowCount ∧ ∃ groups, footer.rowGroups.Perm groups ∧
    List.Forall₂ (Rearranges schema) groups other.rowGroups

/-- Chunks of columns that the table does not have count for nothing. -/
theorem filterMap_unknown {unknown : List ColumnChunk}
    (h : ∀ chunk ∈ unknown, ∀ id, ¬HoldsField schema id chunk) :
    (unknown.filterMap fun chunk => (chunkField? schema chunk).map fun id => (id, chunk)) = [] := by
  rw [List.filterMap_eq_nil_iff]
  intro chunk hChunk
  rw [Option.map_eq_none_iff, Option.eq_none_iff_forall_ne_some]
  exact fun id hField => h chunk hChunk id (chunkField?_eq_some_iff.mp hField)

/-- The column chunks that count are the same in another order. -/
theorem perm_knownChunks {other : Footer} (h : RearrangesFooter schema footer other) :
    (knownChunks schema footer).Perm (knownChunks schema other) := by
  obtain ⟨-, groups, hGroups, hOther⟩ := h
  refine (hGroups.flatten.filterMap _).trans ?_
  clear hGroups
  rw [knownChunks]
  generalize other.rowGroups = rearranged at hOther ⊢
  induction hOther with
  | nil => exact .nil
  | @cons group changed groups others hFirst _ ih =>
      obtain ⟨unknown, hUnknown, hPerm⟩ := hFirst
      have hChanged := (hPerm.filterMap fun chunk =>
        (chunkField? schema chunk).map fun id => (id, chunk)).symm
      rw [List.filterMap_append, filterMap_unknown hUnknown, List.append_nil] at hChanged
      rw [List.flatten_cons, List.flatten_cons, List.filterMap_append, List.filterMap_append]
      exact hChanged.append ih

/-- The order of row groups and chunks makes no difference, nor do columns that the table does not
have. -/
theorem ofFooter_of_rearranges {other : Footer} (h : RearrangesFooter schema footer other) :
    FileStats.ofFooter schema other = FileStats.ofFooter schema footer := by
  have hPerm := perm_knownChunks h
  have hTotals (count : ColumnChunk → UInt64) :
      fieldTotals schema other count = fieldTotals schema footer count :=
    (SortedMap.totals_perm (hPerm.map _)).symm
  have hNulls : knowsNulls schema other = knowsNulls schema footer :=
    funext fun _ => hPerm.symm.all_eq
  simp only [ofFooter_eq, hTotals, hNulls, h.1]

end Table

namespace Warehouse

open Parquet (Footer)
open Table

/-- The footer of a file is read from its content. -/
theorem readFooter_of_status {fs : FileSystem} {path : Path} {content : List UInt8}
    {footer : Footer} (schema : Schema) (hStatus : fs.status path = .ok (.file content))
    (hFooter : Footer.ofContent? content = some footer) :
    readFooter fs schema path = .ok (.ofFooter schema footer) := by
  rw [readFooter, hStatus]
  simp only [Failure.ofOperation, bind, Except.bind, FileStats.ofContent?, hFooter, Option.map_some]

/-- The statistics of a footer state the totals over the column chunks of each field of a table, if
no total reaches 2 ^ 64. They do not depend on the order of row groups and of column chunks, nor on
columns that the table does not have. They are what is read from a file with that footer. -/
theorem summarizes_footer (schema : Schema) (footer : Footer) (hFits : FitsTotals schema footer) :
    Summarizes schema footer (.ofFooter schema footer) ∧
      (∀ other, RearrangesFooter schema footer other →
        FileStats.ofFooter schema other = .ofFooter schema footer) ∧
      ∀ (fs : FileSystem) (path : Path) (content : List UInt8),
        fs.status path = .ok (.file content) → Footer.ofContent? content = some footer →
          readFooter fs schema path = .ok (.ofFooter schema footer) :=
  ⟨summarizes_ofFooter hFits, fun _ => ofFooter_of_rearranges,
    fun _ _ _ => readFooter_of_status schema⟩

/-- A file that ends in a footer with two row groups. -/
def sampleContent : List UInt8 :=
  [21, 4, 25, 60, 72, 6, 115, 99, 104, 101, 109, 97, 21, 4, 0, 21, 4, 37, 2, 24, 6, 104, 101, 105,
    103, 104, 116, 0, 21, 4, 37, 2, 24, 4, 104, 97, 115, 104, 0, 22, 40, 25, 44,
    25, 44, 38, 0, 28, 21, 4, 25, 21, 0, 25, 24, 1, 113, 21, 0, 22, 20, 22, 0, 22, 200, 1, 38, 0,
    60, 54, 6, 0, 0, 0,
    38, 0, 28, 21, 4, 25, 21, 0, 25, 24, 1, 113, 21, 0, 22, 20, 22, 0, 22, 100, 38, 0, 60, 54, 8, 0,
    0, 0, 22, 0, 22, 20, 0,
    25, 44, 38, 0, 28, 21, 4, 25, 21, 0, 25, 24, 1, 113, 21, 0, 22, 20, 22, 0, 22, 1, 38, 0, 0, 0,
    38, 0, 28, 21, 4, 25, 21, 0, 25, 24, 1, 113, 21, 0, 22, 20, 22, 0, 22, 120, 38, 0, 60, 54, 2, 0,
    0, 0, 22, 0, 22, 20, 0,
    0, 167, 0, 0, 0, 80, 65, 82, 49]

/-- In the second group the number of bytes of one chunk is negative, and its nulls are unknown. -/
def sampleFooter : Footer where
  rowCount := 20
  rowGroups :=
    [[⟨["height"], 100, 10, some 3⟩, ⟨["hash"], 50, 10, some 4⟩],
      [⟨["height"], -1, 10, none⟩, ⟨["hash"], 60, 10, some 1⟩]]

/-- The sample is a file whose footer can be read. -/
theorem ofContent?_sample : Footer.ofContent? sampleContent = some sampleFooter := by
  decide +kernel

/-- The same footer with its row groups swapped, the chunks of one of them as well, and a column that
no table has. -/
def rearrangedFooter : Footer where
  rowCount := 20
  rowGroups :=
    [[⟨["colour"], 7, 7, none⟩, ⟨["height"], -1, 10, none⟩, ⟨["hash"], 60, 10, some 1⟩],
      [⟨["hash"], 50, 10, some 4⟩, ⟨["height"], 100, 10, some 3⟩]]

theorem rearranges_sample : RearrangesFooter Kind.blocks.schema sampleFooter rearrangedFooter := by
  refine ⟨rfl, _, .swap _ _ _, .cons ⟨[⟨["colour"], 7, 7, none⟩], ?_, ?_⟩
    (.cons ⟨[], by simp, .swap _ _ _⟩ .nil)⟩
  · rintro chunk hChunk id hHolds
    obtain rfl := List.mem_singleton.mp hChunk
    have hField := chunkField?_eq_some_iff.mpr hHolds
    rw [show chunkField? Kind.blocks.schema ⟨["colour"], 7, 7, none⟩ = none by decide] at hField
    cases hField
  · exact (List.perm_append_singleton _ _).symm

def sampleFile : FileSystem where
  rootEntries := [(Name.ofString "a.parquet", .file sampleContent)]
  workingDir := .existing []
  output := []

theorem status_sampleFile :
    sampleFile.status (.ofString "a.parquet") = .ok (.file sampleContent) := by
  have hWalk : sampleFile.resolve .follow (.ofString "a.parquet") =
      FileSystem.walk sampleFile.root .follow FileSystem.maxLinks []
        [Name.ofString "a.parquet"] false := rfl
  rw [FileSystem.status, hWalk, FileSystem.walk]
  rfl

/-- The sample has 20 rows. The chunks of the height, which has the id 2, come to 100 bytes and 20
values, those of the hash, which has the id 5, to 110 bytes, 20 values and 5 nulls. -/
theorem summarizes_sampleFooter :
    FitsTotals Kind.blocks.schema sampleFooter ∧
      Summarizes Kind.blocks.schema sampleFooter (.ofFooter Kind.blocks.schema sampleFooter) ∧
      (∃ stats, stats = FileStats.ofFooter Kind.blocks.schema sampleFooter ∧
        stats.recordCount = 20 ∧ stats.columnSizes.entries = [(2, 100), (5, 110)] ∧
        stats.valueCounts.entries = [(2, 20), (5, 20)] ∧ stats.nullValueCounts.entries = [(5, 5)]) ∧
      totalOf Kind.blocks.schema sampleFooter 5 chunkBytes = 110 ∧
      FileStats.ofFooter Kind.blocks.schema rearrangedFooter =
        .ofFooter Kind.blocks.schema sampleFooter ∧
      readFooter sampleFile Kind.blocks.schema (.ofString "a.parquet") =
        .ok (.ofFooter Kind.blocks.schema sampleFooter) := by
  have hFits : FitsTotals Kind.blocks.schema sampleFooter :=
    .of_all (by decide) (by decide) (by decide)
  obtain ⟨hSummarizes, hRearranged, hRead⟩ :=
    summarizes_footer Kind.blocks.schema sampleFooter hFits
  exact ⟨hFits, hSummarizes, ⟨_, rfl, by decide, by decide, by decide, by decide⟩,
    (hSummarizes.columnSizes 5 110 (by decide)).symm, hRearranged _ rearranges_sample,
    hRead _ _ _ status_sampleFile ofContent?_sample⟩

end Warehouse

end ExportKit
