import ExportKit.Proofs.Warehouse.Rerun

/-!
The document of a report. All of its paths lie in the warehouse, so there is one just if the path of
the warehouse is UTF-8. Main statement: `toJson?_report_eq_none_iff`.
-/
namespace ExportKit

namespace Path

variable {path : Path} {text : String}

/-- A path has a text just if it spells one. -/
theorem text?_eq_some_iff : path.text? = some text ↔ path = ofString text := by
  rw [text?, Option.map_eq_some_iff]
  constructor
  · rintro ⟨chars, hDecode, rfl⟩
    rw [ofString, String.toList_ofList, Utf8.encode_of_decode? hDecode]
  · rintro rfl
    exact ⟨text.toList, Utf8.decode?_encode _, String.ofList_toList⟩

/-- An entry of a directory whose path is UTF-8 has such a path as well. -/
theorem exists_child_eq_ofString (text name : String) :
    ∃ longer, (ofString text).child name = ofString longer := by
  have hSlash : Utf8.encode ['/'] = [slash] := by decide
  rw [child, join]
  split
  · exact ⟨name, rfl⟩
  · split
    · exact ⟨text ++ name, by simp only [ofString, String.toList_append, Utf8.encode_append]⟩
    · refine ⟨text ++ "/" ++ name, ?_⟩
      rw [ofString, ofString, ofString, String.toList_append, String.toList_append,
        Utf8.encode_append, Utf8.encode_append, List.append_assoc]
      exact congrArg (fun between => Path.mk (_ ++ (between ++ _))) hSlash.symm

end Path

namespace Warehouse

open Table (Documents Kind Stamp)

variable {fs after : FileSystem} {config : Configuration} {stamps : Kind → Stamp}
  {outcome : TableOutcome} {outcomes : List TableOutcome} {text : String}

theorem pathJson?_ofString (text : String) : pathJson? (.ofString text) = some (.string text) := by
  rw [pathJson?, Path.text?_eq_some_iff.mpr rfl, Option.map_some]

/-- The document of an entry of a directory whose path is UTF-8. -/
theorem exists_pathJson?_child (text name : String) :
    ∃ document, pathJson? ((Path.ofString text).child name) = some document := by
  obtain ⟨longer, hChild⟩ := Path.exists_child_eq_ofString text name
  rw [hChild]
  exact ⟨_, pathJson?_ofString longer⟩

/-- Where the path of the table is a text, the files of the documents can be printed. -/
theorem exists_toJson?_ofTable (text : String) (documents : Documents) :
    ∃ document, (WrittenFiles.ofTable (.ofString text) documents).toJson? = some document := by
  obtain ⟨dir, hDir⟩ := Path.exists_child_eq_ofString text Documents.directoryName
  obtain ⟨metadata, hMetadata⟩ := exists_pathJson?_child dir Documents.versionFileName
  obtain ⟨pointer, hPointer⟩ := exists_pathJson?_child dir Documents.pointerFileName
  obtain ⟨versionHint, hVersionHint⟩ := exists_pathJson?_child dir Documents.versionHintFileName
  obtain ⟨manifest, hManifest⟩ := exists_pathJson?_child dir documents.manifestFileName
  obtain ⟨manifestList, hManifestList⟩ := exists_pathJson?_child dir documents.manifestListFileName
  simp only [WrittenFiles.toJson?, WrittenFiles.ofTable, hDir, hMetadata, hPointer, hVersionHint,
    hManifest, hManifestList, Option.bind_eq_bind, Option.bind_some]
  exact ⟨_, rfl⟩

/-- An outcome has a document if the files that it reports have one. -/
theorem exists_toJson?_outcome
    (h : ∀ files, outcome.written = some files → ∃ document, files.toJson? = some document) :
    ∃ document, outcome.toJson? = some document := by
  rw [TableOutcome.toJson?]
  cases hWritten : outcome.written with
  | none => exact ⟨_, rfl⟩
  | some files =>
      obtain ⟨document, hDocument⟩ := h files hWritten
      exact ⟨_, by rw [Option.mapM_some, hDocument]; rfl⟩

/-- A list of outcomes can be printed if each of them can. -/
theorem exists_mapM_toJson? (h : ∀ outcome ∈ outcomes, ∃ document, outcome.toJson? = some document) :
    ∃ documents, outcomes.mapM TableOutcome.toJson? = some documents := by
  induction outcomes with
  | nil => exact ⟨[], rfl⟩
  | cons outcome outcomes ih =>
      obtain ⟨document, hDocument⟩ := h outcome List.mem_cons_self
      obtain ⟨documents, hDocuments⟩ := ih fun other hOther => h other (List.mem_cons_of_mem _ hOther)
      exact ⟨document :: documents, by rw [List.mapM_cons, hDocument, hDocuments]; rfl⟩

/-- The files that a run reports for a table of a warehouse whose path is UTF-8 have a document. -/
theorem exists_toJson?_of_generateTable {kind : Kind} {stamp : Stamp}
    (hText : config.warehouse = .ofString text)
    (h : generateTable config kind stamp fs = (.ok outcome, after)) :
    ∃ document, outcome.toJson? = some document := by
  apply exists_toJson?_outcome
  intro files hFiles
  rcases generateTable_eq_ok h with ⟨_, -, -, rfl, -⟩ | ⟨kept, written, -, -, hWrite, rfl⟩
  · cases hFiles
  · obtain rfl := Option.some_inj.mp hFiles
    obtain ⟨dir, hDir⟩ := Path.exists_child_eq_ofString text kind.name
    rw [written_of_writeDocuments hWrite, Configuration.tableDir, hText, hDir]
    exact exists_toJson?_ofTable dir _

/-- The report of a run has no document just if the path of the warehouse is not UTF-8. -/
theorem toJson?_report_eq_none_iff (generatedAt : String)
    (h : generateTables config stamps Kind.all fs = (.ok outcomes, after)) :
    (config.report generatedAt outcomes).toJson? = none ↔ config.warehouse.text? = none := by
  cases hText : config.warehouse.text? with
  | none =>
      have hWarehouse : pathJson? (config.report generatedAt outcomes).warehouse = none := by
        rw [pathJson?, Configuration.report, hText, Option.map_none]
      refine iff_of_true ?_ rfl
      rw [Report.toJson?, hWarehouse]
      rfl
  | some text =>
      have hWarehouse := Path.text?_eq_some_iff.mp hText
      obtain ⟨documents, hDocuments⟩ := exists_mapM_toJson? fun outcome hOutcome => by
        obtain ⟨_, _, _, _, _, _, _, -, -, hTurn, -⟩ := exists_turn h hOutcome
        exact exists_toJson?_of_generateTable hWarehouse hTurn
      refine iff_of_false ?_ (Option.some_ne_none text)
      rw [Report.toJson?, Configuration.report, hWarehouse, pathJson?_ofString, hDocuments]
      exact Option.some_ne_none _

end Warehouse

end ExportKit
