import ExportKit.Proofs.FileSystem.Listing
import ExportKit.Proofs.Text.Utf8
import ExportKit.Warehouse.Scan
import Mathlib.Data.List.Forall2

/-!
A scan that succeeds finds every data file of a table once, in byte order of the directories and
of the names in them.
-/
namespace ExportKit

namespace Warehouse

open Table (DataFile)

theorem mapM_cons_eq_ok {ε α β : Type} {f : α → Except ε β} {x : α} {xs : List α} {ys : List β} :
    (x :: xs).mapM f = .ok ys ↔
      ∃ y rest, f x = .ok y ∧ xs.mapM f = .ok rest ∧ ys = y :: rest := by
  rw [List.mapM_cons, bind_eq_ok]
  simp only [bind_eq_ok, pure, Except.pure, Except.ok.injEq]
  constructor
  · rintro ⟨y, hy, rest, hRest, rfl⟩
    exact ⟨y, rest, hy, hRest, rfl⟩
  · rintro ⟨y, rest, hy, hRest, rfl⟩
    exact ⟨y, hy, rest, hRest, rfl⟩

theorem Failure.ofOperation_eq_ok {α : Type} {path : Path} {result : Except Fault α} {value : α} :
    ofOperation path result = .ok value ↔ result = .ok value := by
  cases result <;> simp [ofOperation]

namespace Scan

/-- Whether the file of a given name is looked at: it is not hidden and has the right suffix. -/
def IsCandidate (text : String) : Prop :=
  text.toList.head? ≠ some '.' ∧ suffix <:+ text.toList

/-- A name is visible just if it is UTF-8 without a dot at its beginning. -/
theorem visible?_eq_some_iff {name : Name} {text : String} :
    visible? name = some text ↔ name = Name.ofString text ∧ text.toList.head? ≠ some '.' := by
  rw [visible?]
  constructor
  · intro h
    cases hDecode : Utf8.decode? name with
    | none => simp [hDecode] at h
    | some chars =>
        simp only [hDecode, Option.ite_none_left_eq_some, Option.some_inj] at h
        obtain ⟨hHead, rfl⟩ := h
        rw [Name.ofString, String.toList_ofList, Utf8.encode_of_decode? hDecode]
        exact ⟨rfl, hHead⟩
  · rintro ⟨rfl, hHead⟩
    simp [Name.ofString, hHead]

theorem isCandidate_iff {name : Name} :
    isCandidate name ↔ ∃ text, name = Name.ofString text ∧ IsCandidate text := by
  rw [isCandidate, Option.any_eq_true]
  constructor
  · rintro ⟨text, hVisible, hSuffix⟩
    obtain ⟨hName, hHead⟩ := visible?_eq_some_iff.mp hVisible
    exact ⟨text, hName, hHead, List.isSuffixOf_iff_suffix.mp hSuffix⟩
  · rintro ⟨text, hName, hHead, hSuffix⟩
    exact ⟨text, visible?_eq_some_iff.mpr ⟨hName, hHead⟩, List.isSuffixOf_iff_suffix.mpr hSuffix⟩

theorem isCandidate_ofString {text : String} :
    isCandidate (Name.ofString text) ↔ IsCandidate text := by
  rw [isCandidate_iff]
  constructor
  · rintro ⟨other, hName, hCandidate⟩
    exact Name.ofString_injective hName ▸ hCandidate
  · exact fun h => ⟨text, rfl, h⟩

/-- The regular file, links followed, that is recorded for a directory and a name in it. -/
structure Finds (fs : FileSystem) (dir : Path) (dirName : String) (file : DataFile)
    (text : String) : Prop where
  path_eq : file.path = dir.child text
  partitionDir_eq : file.partitionDir = dirName
  stats_eq : file.stats = none
  content : ∃ content, fs.status (dir.child text) = .ok (.file content) ∧
    file.size = UInt64.ofNat content.length

/-- Texts in increasing byte order. -/
abbrev Ascending (left right : String) : Prop :=
  compare (Name.ofString left) (Name.ofString right) = .lt

/-- Under a name there is a data file to be found, or no regular file. -/
theorem dataFile?_eq_ok {fs : FileSystem} {dir : Path} {dirName text : String}
    {found : Option DataFile} (h : dataFile? fs dir dirName (Name.ofString text) = .ok found) :
    (∃ file, found = some file ∧ Finds fs dir dirName file text) ∨
      (found = none ∧ ∀ content, fs.status (dir.child text) ≠ .ok (.file content)) := by
  simp only [dataFile?, bind_eq_ok, Failure.ofOperation_eq_ok] at h
  obtain ⟨node, hStatus, hFound⟩ := h
  cases node with
  | file content =>
      cases hFound
      exact .inl ⟨_, rfl, rfl, rfl, rfl, content, hStatus, rfl⟩
  | link | dir | device =>
      cases hFound
      exact .inr ⟨rfl, fun content hFile => by
        have hEq := hStatus.symm.trans hFile
        simp at hEq⟩

/-- Among names in increasing order, the regular files are found in the same order. -/
theorem exists_texts {fs : FileSystem} {dir : Path} {dirName : String} {names : List Name}
    {found : List (Option DataFile)} (hNames : names.Pairwise fun a b => compare a b = .lt)
    (h : (names.filter isCandidate).mapM (dataFile? fs dir dirName) = .ok found) :
    ∃ texts, List.Forall₂ (Finds fs dir dirName) (found.filterMap id) texts ∧
      texts.Pairwise Ascending ∧ ∀ text, text ∈ texts ↔ Name.ofString text ∈ names ∧
        IsCandidate text ∧ ∃ content, fs.status (dir.child text) = .ok (.file content) := by
  induction names generalizing found with
  | nil =>
      cases h
      exact ⟨[], .nil, .nil, by simp⟩
  | cons name names ih =>
      obtain ⟨hFirst, hRest⟩ := List.pairwise_cons.mp hNames
      by_cases hCandidate : isCandidate name
      · obtain ⟨first, rfl, hFirstCandidate⟩ := isCandidate_iff.mp hCandidate
        rw [List.filter_cons_of_pos hCandidate, mapM_cons_eq_ok] at h
        obtain ⟨file?, rest, hFile, hFound, rfl⟩ := h
        obtain ⟨texts, hFiles, hTexts, hMem⟩ := ih hRest hFound
        rcases dataFile?_eq_ok hFile with ⟨file, rfl, hFinds⟩ | ⟨rfl, hNone⟩
        · refine ⟨first :: texts, .cons hFinds hFiles, List.pairwise_cons.mpr ⟨?_, hTexts⟩, ?_⟩
          · intro text hText
            exact hFirst _ ((hMem text).mp hText).1
          · obtain ⟨content, hContent, -⟩ := hFinds.content
            intro text
            constructor
            · intro h
              rcases List.mem_cons.mp h with rfl | h
              · exact ⟨List.mem_cons_self, hFirstCandidate, content, hContent⟩
              · obtain ⟨hName, hText⟩ := (hMem text).mp h
                exact ⟨List.mem_cons_of_mem _ hName, hText⟩
            · rintro ⟨hName, hText⟩
              rcases List.mem_cons.mp hName with hEq | hName
              · exact Name.ofString_injective hEq ▸ List.mem_cons_self
              · exact List.mem_cons_of_mem _ ((hMem text).mpr ⟨hName, hText⟩)
        · refine ⟨texts, hFiles, hTexts, fun text => (hMem text).trans ?_⟩
          constructor
          · rintro ⟨hName, hText⟩
            exact ⟨List.mem_cons_of_mem _ hName, hText⟩
          · rintro ⟨hName, hText, content, hContent⟩
            rcases List.mem_cons.mp hName with hEq | hName
            · exact absurd hContent (Name.ofString_injective hEq ▸ hNone content)
            · exact ⟨hName, hText, content, hContent⟩
      · rw [List.filter_cons_of_neg hCandidate] at h
        obtain ⟨texts, hFiles, hTexts, hMem⟩ := ih hRest h
        refine ⟨texts, hFiles, hTexts, fun text => (hMem text).trans ?_⟩
        constructor
        · rintro ⟨hName, hText⟩
          exact ⟨List.mem_cons_of_mem _ hName, hText⟩
        · rintro ⟨hName, hText, hContent⟩
          rcases List.mem_cons.mp hName with rfl | hName
          · exact absurd (isCandidate_ofString.mpr hText) hCandidate
          · exact ⟨hName, hText, hContent⟩

/-- What is listed is a name without slashes, and what is found under such a name is listed. -/
theorem mem_names_iff {fs : FileSystem} {path : Path} {first : Name} {node : Node}
    (hFirst : first.IsProper) (hDir : fs.status (path.join ⟨first⟩) = .ok node) {text : String}
    (hEmpty : text.toList ≠ []) (hDot : text.toList.head? ≠ some '.') {child : Node}
    (h : fs.status ((path.join ⟨first⟩).child text) = .ok child) :
    Name.ofString text ∈ node.names ↔ '/' ∉ text.toList := by
  constructor
  · intro hMem hSlash
    obtain ⟨hProper, -⟩ := Name.isValid_iff.mp (Node.mem_names.mp hMem).1
    exact hProper.not_mem_slash (Utf8.mem_encode_of_mem hSlash (by decide))
  · intro hSlash
    exact FileSystem.mem_names_of_status hFirst (Name.isProper_ofString hEmpty hSlash hDot) hDir h

/-- A regular file, links followed, in a directory of the data directory: neither is hidden, and the
file has the right suffix. -/
structure IsDataFile (fs : FileSystem) (dataDir : Path) (pair : String × String) : Prop where
  dir_ne_nil : pair.1.toList ≠ []
  dir_visible : pair.1.toList.head? ≠ some '.'
  dir_not_mem_slash : '/' ∉ pair.1.toList
  isDir : fs.isDir (dataDir.child pair.1)
  candidate : IsCandidate pair.2
  not_mem_slash : '/' ∉ pair.2.toList
  isFile : ∃ content, fs.status ((dataDir.child pair.1).child pair.2) = .ok (.file content)

/-- Pairs in increasing byte order of the first text and then of the second. -/
def Before (left right : String × String) : Prop :=
  Ascending left.1 right.1 ∨ left.1 = right.1 ∧ Ascending left.2 right.2

theorem IsCandidate.ne_nil {text : String} (h : IsCandidate text) : text.toList ≠ [] := by
  intro hEmpty
  have hSuffix := h.2
  rw [hEmpty, List.suffix_nil] at hSuffix
  exact absurd hSuffix (by decide)

/-- The suffix is not the whole name, which would be hidden. -/
theorem IsCandidate.length_le {text : String} (h : IsCandidate text) :
    9 ≤ text.toList.length := by
  obtain ⟨hVisible, start, hStart⟩ := h
  cases start with
  | nil =>
      rw [← hStart] at hVisible
      exact absurd rfl hVisible
  | cons c rest =>
      rw [← hStart, List.length_append, List.length_cons]
      have hSuffix : suffix.length = 8 := by decide
      omega

theorem exists_status_of_isDir {fs : FileSystem} {path : Path} (h : fs.isDir path) :
    ∃ node, fs.status path = .ok node ∧ node.isDir := by
  rw [FileSystem.isDir] at h
  cases hStatus : fs.status path with
  | error fault => simp [hStatus] at h
  | ok node => exact ⟨node, rfl, by simpa [hStatus] using h⟩

theorem listDir_of_status {fs : FileSystem} {path : Path} {node : Node}
    (h : fs.status path = .ok node) (hDir : node.isDir) : fs.listDir path = .ok node.names := by
  simp [FileSystem.listDir, h, hDir, bind, Except.bind]

/-- A scan of a directory that is not hidden looks at the candidates among its entries. -/
theorem partitionFiles_of_status {fs : FileSystem} {dataDir : Path} {dirName : String} {node : Node}
    (hVisible : dirName.toList.head? ≠ some '.')
    (hStatus : fs.status (dataDir.child dirName) = .ok node) (hDir : node.isDir) :
    partitionFiles fs dataDir (Name.ofString dirName) =
      ((node.names.filter isCandidate).mapM (dataFile? fs (dataDir.child dirName) dirName) >>=
        fun files => .ok (files.filterMap id)) := by
  have hSome : visible? (Name.ofString dirName) = some dirName :=
    visible?_eq_some_iff.mpr ⟨rfl, hVisible⟩
  have hIsDir : fs.isDir (dataDir.child dirName) := by
    rw [FileSystem.isDir, hStatus]
    exact hDir
  simp only [partitionFiles, hSome, Path.join_ofString, hIsDir, if_true,
    listDir_of_status hStatus hDir]
  rfl

/-- The files found in one entry of the data directory. -/
theorem partitionFiles_eq_ok {fs : FileSystem} {dataDir : Path} {dirName : String}
    {files : List DataFile} (hName : (Name.ofString dirName).IsProper)
    (hVisible : dirName.toList.head? ≠ some '.') (hDir : fs.isDir (dataDir.child dirName))
    (h : partitionFiles fs dataDir (Name.ofString dirName) = .ok files) :
    ∃ texts, List.Forall₂ (Finds fs (dataDir.child dirName) dirName) files texts ∧
      texts.Pairwise Ascending ∧ ∀ text, text ∈ texts ↔ IsCandidate text ∧
        '/' ∉ text.toList ∧
        ∃ content, fs.status ((dataDir.child dirName).child text) = .ok (.file content) := by
  obtain ⟨node, hStatus, hNode⟩ := exists_status_of_isDir hDir
  rw [partitionFiles_of_status hVisible hStatus hNode, bind_eq_ok] at h
  obtain ⟨found, hFound, hFiles⟩ := h
  obtain rfl : found.filterMap id = files := Except.ok.inj hFiles
  obtain ⟨texts, hTexts, hSorted, hMem⟩ := exists_texts (Node.pairwise_names node) hFound
  refine ⟨texts, hTexts, hSorted, fun text => (hMem text).trans ?_⟩
  constructor
  · rintro ⟨hListed, hCandidate, content, hContent⟩
    exact ⟨hCandidate, (mem_names_iff hName hStatus hCandidate.ne_nil hCandidate.1 hContent).mp
      hListed, content, hContent⟩
  · rintro ⟨hCandidate, hSlash, content, hContent⟩
    exact ⟨(mem_names_iff hName hStatus hCandidate.ne_nil hCandidate.1 hContent).mpr hSlash,
      hCandidate, content, hContent⟩

/-- What is no directory holds no data files. -/
theorem partitionFiles_of_not_isDir {fs : FileSystem} {dataDir : Path} {dirName : String}
    (hDir : ¬fs.isDir (dataDir.child dirName)) :
    partitionFiles fs dataDir (Name.ofString dirName) = .ok [] := by
  simp only [partitionFiles]
  split
  next => exact if_neg hDir
  next => rfl

/-- Each pair is that of a file in the same place of the list, and the other way round. -/
def FindsPair (fs : FileSystem) (dataDir : Path) (file : DataFile) (pair : String × String) :
    Prop :=
  Finds fs (dataDir.child pair.1) pair.1 file pair.2

theorem forall₂_pairs {fs : FileSystem} {dataDir : Path} {dirName : String}
    {files : List DataFile} {texts : List String}
    (h : List.Forall₂ (Finds fs (dataDir.child dirName) dirName) files texts) :
    List.Forall₂ (FindsPair fs dataDir) files (texts.map fun text => (dirName, text)) := by
  induction h with
  | nil => exact .nil
  | cons hFirst _ ih => exact .cons hFirst ih

/-- Among the names in the data directory, in increasing order, the files of each partition are
found in the same order. -/
theorem exists_pairs {fs : FileSystem} {dataDir : Path} {names : List Name}
    {found : List (List DataFile)} (hNames : names.Pairwise fun a b => compare a b = .lt)
    (hValid : ∀ name ∈ names, name.IsProper)
    (h : names.mapM (partitionFiles fs dataDir) = .ok found) :
    ∃ pairs, List.Forall₂ (FindsPair fs dataDir) found.flatten pairs ∧ pairs.Pairwise Before ∧
      ∀ pair, pair ∈ pairs ↔ Name.ofString pair.1 ∈ names ∧ pair.1.toList.head? ≠ some '.' ∧
        fs.isDir (dataDir.child pair.1) ∧ IsCandidate pair.2 ∧ '/' ∉ pair.2.toList ∧
        ∃ content, fs.status ((dataDir.child pair.1).child pair.2) = .ok (.file content) := by
  induction names generalizing found with
  | nil =>
      cases h
      exact ⟨[], .nil, .nil, by simp⟩
  | cons name names ih =>
      obtain ⟨hFirst, hRest⟩ := List.pairwise_cons.mp hNames
      rw [mapM_cons_eq_ok] at h
      obtain ⟨files, rest, hFiles, hFound, rfl⟩ := h
      obtain ⟨pairs, hPairs, hSorted, hMem⟩ :=
        ih hRest (fun other hOther => hValid other (List.mem_cons_of_mem _ hOther)) hFound
      by_cases hPartition : ∃ dirName, name = Name.ofString dirName ∧
          dirName.toList.head? ≠ some '.' ∧ fs.isDir (dataDir.child dirName)
      · obtain ⟨dirName, rfl, hVisible, hDir⟩ := hPartition
        obtain ⟨texts, hTexts, hTextsSorted, hTextsMem⟩ :=
          partitionFiles_eq_ok (hValid _ List.mem_cons_self) hVisible hDir hFiles
        refine ⟨texts.map (fun text => (dirName, text)) ++ pairs,
          List.rel_append (forall₂_pairs hTexts) hPairs, ?_, ?_⟩
        · refine List.pairwise_append.mpr ⟨?_, hSorted, ?_⟩
          · exact List.pairwise_map.mpr (hTextsSorted.imp fun hLt => .inr ⟨rfl, hLt⟩)
          · intro left hLeft right hRight
            obtain ⟨text, -, rfl⟩ := List.mem_map.mp hLeft
            exact .inl (hFirst _ ((hMem right).mp hRight).1)
        · rintro ⟨other, text⟩
          rw [List.mem_append, hMem]
          constructor
          · rintro (hText | ⟨hName, hOther⟩)
            · obtain ⟨text, hText, hEq⟩ := List.mem_map.mp hText
              cases hEq
              exact ⟨List.mem_cons_self, hVisible, hDir, (hTextsMem text).mp hText⟩
            · exact ⟨List.mem_cons_of_mem _ hName, hOther⟩
          · rintro ⟨hName, hOther, hOtherDir, hText⟩
            rcases List.mem_cons.mp hName with hEq | hName
            · obtain rfl := Name.ofString_injective hEq
              exact .inl (List.mem_map_of_mem ((hTextsMem text).mpr hText))
            · exact .inr ⟨hName, hOther, hOtherDir, hText⟩
      · have hEmpty : files = [] := by
          cases hVisible : visible? name with
          | none =>
              simp only [partitionFiles, hVisible] at hFiles
              exact (Except.ok.inj hFiles).symm
          | some dirName =>
              obtain ⟨rfl, hHead⟩ := visible?_eq_some_iff.mp hVisible
              have hNone := partitionFiles_of_not_isDir fun hDir =>
                hPartition ⟨dirName, rfl, hHead, hDir⟩
              exact Except.ok.inj (hFiles.symm.trans hNone)
        subst hEmpty
        refine ⟨pairs, hPairs, hSorted, fun pair => (hMem pair).trans ?_⟩
        constructor
        · rintro ⟨hName, hPair⟩
          exact ⟨List.mem_cons_of_mem _ hName, hPair⟩
        · rintro ⟨hName, hVisible, hDir, hText⟩
          rcases List.mem_cons.mp hName with hEq | hName
          · exact absurd ⟨pair.1, hEq.symm, hVisible, hDir⟩ hPartition
          · exact ⟨hName, hVisible, hDir, hText⟩

/-- A scan finds the data files below a data directory, each once, in increasing order. -/
theorem dataFiles_eq_ok {fs : FileSystem} {path : Path} {dirName : String}
    {files : List DataFile} (hName : (Name.ofString dirName).IsProper)
    (h : dataFiles fs (path.child dirName) = .ok files) :
    ∃ pairs, List.Forall₂ (FindsPair fs (path.child dirName)) files pairs ∧
      pairs.Pairwise Before ∧ ∀ pair, pair ∈ pairs ↔ IsDataFile fs (path.child dirName) pair := by
  simp only [dataFiles, bind_eq_ok, Failure.ofOperation_eq_ok] at h
  obtain ⟨names, hNames, found, hFound, hFiles⟩ := h
  obtain rfl : found.flatten = files := Except.ok.inj hFiles
  rw [FileSystem.listDir, bind_eq_ok] at hNames
  obtain ⟨node, hStatus, hNode⟩ := hNames
  split at hNode
  next hDir =>
    obtain rfl : node.names = names := Except.ok.inj hNode
    have hValid : ∀ name ∈ node.names, name.IsProper := fun name hMem =>
      .of_isValid (Node.mem_names.mp hMem).1
    obtain ⟨pairs, hPairs, hSorted, hMem⟩ := exists_pairs (Node.pairwise_names node) hValid hFound
    refine ⟨pairs, hPairs, hSorted, fun pair => (hMem pair).trans ?_⟩
    constructor
    · rintro ⟨hListed, hVisible, hPairDir, hCandidate, hSlash, hFile⟩
      have hProper := hValid _ hListed
      refine ⟨fun hEmpty => hProper.ne_nil (by simp [Name.ofString, hEmpty]), hVisible, ?_,
        hPairDir, hCandidate, hSlash, hFile⟩
      exact fun hMem => hProper.not_mem_slash (Utf8.mem_encode_of_mem hMem (by decide))
    · rintro ⟨hEmpty, hVisible, hDirSlash, hPairDir, hCandidate, hSlash, hFile⟩
      obtain ⟨child, hChild, -⟩ := exists_status_of_isDir hPairDir
      exact ⟨(mem_names_iff hName hStatus hEmpty hVisible hChild).mpr hDirSlash, hVisible,
        hPairDir, hCandidate, hSlash, hFile⟩
  next => simp at hNode

end Scan

end Warehouse

end ExportKit
