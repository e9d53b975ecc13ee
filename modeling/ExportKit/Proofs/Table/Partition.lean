import ExportKit.Proofs.Text.Digits
import ExportKit.Table.Partition
import Mathlib.Data.List.Basic

/-!
The names of partition directories that spell ranges of heights. Main statement:
`readsRanges_ofDirName?`.
-/
namespace ExportKit.Table.HeightRange

/-- The name is `height=`, a number in decimal notation, a hyphen and another such number. -/
def IsNamed (name : List Char) (first last : Nat) : Prop :=
  ∃ start finish, name = "height=".toList ++ start ++ '-' :: finish ∧
    Digits.Denotes start first ∧ Digits.Denotes finish last

/-- The name gives the first height of a range and the last one. -/
def Spells (name : List Char) (range : HeightRange) : Prop :=
  IsNamed name range.first.toNat range.last.toNat

/-- The digits before a hyphen end there. -/
theorem takeWhile_hyphen {first : List Char} (h : ∀ c ∈ first, c.isDigit) (last : List Char) :
    (first ++ '-' :: last).takeWhile (· ≠ '-') = first ∧
      (first ++ '-' :: last).dropWhile (· ≠ '-') = '-' :: last := by
  have hFirst : ∀ c ∈ first, decide (c ≠ '-') = true := by
    intro c hc
    apply decide_eq_true
    rintro rfl
    exact absurd (h '-' hc) (by decide)
  rw [List.takeWhile_append_of_pos hFirst, List.dropWhile_append_of_pos hFirst]
  simp

/-- A name is read as the range that it spells, and no other name is read. -/
theorem ofDirName?_eq_some_iff {name : List Char} {range : HeightRange} :
    ofDirName? name = some range ↔ Spells name range := by
  constructor
  · intro h
    rw [ofDirName?] at h
    simp only [Option.bind_eq_bind, Option.bind_eq_some_iff] at h
    obtain ⟨rest, hMarker, first, hFirst, h⟩ := h
    have hName : marker ++ rest = name := List.isPrefixOf?_eq_some_iff_append_eq.mp hMarker
    have hRest : rest.takeWhile (· ≠ '-') ++ rest.dropWhile (· ≠ '-') = rest :=
      List.takeWhile_append_dropWhile
    split at h
    next c last hDrop =>
      simp only [Option.bind_eq_some_iff] at h
      obtain ⟨number, hLast, h⟩ := h
      split at h
      next ordered =>
        obtain rfl := Option.some_inj.mp h
        have hc : c = '-' := by
          have hHead := List.head?_dropWhile_not (fun c => decide (c ≠ '-')) rest
          rw [hDrop] at hHead
          simpa using hHead
        subst hc
        refine ⟨rest.takeWhile (· ≠ '-'), last, ?_, Digits.readUInt64?_eq_some_iff.mp hFirst,
          Digits.readUInt64?_eq_some_iff.mp hLast⟩
        rw [List.append_assoc, ← hDrop, hRest]
        exact hName.symm
      next => simp at h
    next => simp at h
  · rintro ⟨first, last, rfl, hFirst, hLast⟩
    obtain ⟨hTake, hDrop⟩ := takeWhile_hyphen hFirst.isDigit last
    rw [← Digits.readUInt64?_eq_some_iff] at hFirst hLast
    have hMarker : marker.isPrefixOf? ("height=".toList ++ first ++ '-' :: last) =
        some (first ++ '-' :: last) := by
      rw [List.isPrefixOf?_eq_some_iff_append_eq, List.append_assoc]
      rfl
    rw [ofDirName?, hMarker]
    simp only [Option.bind_eq_bind, Option.bind_some, hTake, hDrop, hFirst, hLast,
      dif_pos range.ordered]

/-- A name that spells a range begins with a letter, and so it is not hidden. -/
theorem Spells.head?_eq {name : List Char} {range : HeightRange} (h : Spells name range) :
    name.head? = some 'h' := by
  obtain ⟨first, last, rfl, -, -⟩ := h
  have hMarker : "height=".toList.head? = some 'h' := by decide
  rw [List.append_assoc, List.head?_append, hMarker, Option.some_or]

/-- No name that spells a range holds a slash. -/
theorem Spells.not_mem_slash {name : List Char} {range : HeightRange} (h : Spells name range) :
    '/' ∉ name := by
  obtain ⟨first, last, rfl, hFirst, hLast⟩ := h
  have hSlash : ¬('/' : Char).isDigit := by decide
  have hNotFirst : '/' ∉ first := fun hMem => hSlash (hFirst.isDigit _ hMem)
  have hNotLast : '/' ∉ last := fun hMem => hSlash (hLast.isDigit _ hMem)
  simp [hNotFirst, hNotLast]

/-! Heights of any size. -/

/-- The heights of a name make up a range if they are in order and the last one fits 64 bits. -/
theorem exists_range {first last : Nat} (hOrdered : first ≤ last) (hSize : last < 2 ^ 64) :
    ∃ range : HeightRange, range.first.toNat = first ∧ range.last.toNat = last := by
  have hFirst : (UInt64.ofNat first).toNat = first :=
    UInt64.toNat_ofNat_of_lt' (Nat.lt_of_le_of_lt hOrdered hSize)
  have hLast : (UInt64.ofNat last).toNat = last := UInt64.toNat_ofNat_of_lt' hSize
  refine ⟨⟨.ofNat first, .ofNat last, ?_⟩, hFirst, hLast⟩
  rwa [UInt64.le_iff_toNat_le, hFirst, hLast]

/-- A name spells one range at most. -/
theorem IsNamed.unique {name : List Char} {first last first' last' : Nat}
    (h : IsNamed name first last) (h' : IsNamed name first' last') :
    first = first' ∧ last = last' := by
  obtain ⟨start, finish, hName, hStart, hFinish⟩ := h
  obtain ⟨start', finish', hName', hStart', hFinish'⟩ := h'
  rw [hName, List.append_assoc, List.append_assoc] at hName'
  have hRest := List.append_cancel_left hName'
  obtain ⟨hTake, hDrop⟩ := takeWhile_hyphen hStart.isDigit finish
  obtain ⟨hTake', hDrop'⟩ := takeWhile_hyphen hStart'.isDigit finish'
  rw [hRest, hTake'] at hTake
  rw [hRest, hDrop', List.cons.injEq] at hDrop
  obtain rfl := hTake
  obtain ⟨-, rfl⟩ := hDrop
  exact ⟨hStart.unique hStart', hFinish.unique hFinish'⟩

/-- After the marker stand two numbers with a hyphen between them. -/
theorem ofDirName?_marker {rest : List Char} {range : HeightRange}
    (h : ofDirName? ("height=".toList ++ rest) = some range) :
    ∃ start finish, rest = start ++ '-' :: finish ∧
      Digits.Denotes start range.first.toNat ∧ Digits.Denotes finish range.last.toNat := by
  obtain ⟨start, finish, hName, hStart, hFinish⟩ :=
    ofDirName?_eq_some_iff.mp h
  rw [List.append_assoc] at hName
  exact ⟨start, finish, List.append_cancel_left hName, hStart, hFinish⟩

/-- How the names of directories are read as ranges of heights. -/
structure ReadsRanges (read? : List Char → Option HeightRange) : Prop where
  /-- The names of the grammar are read as the numbers that they denote, and no others are read. -/
  grammar : ∀ name first last,
    (read? name).map (fun range => (range.first.toNat, range.last.toNat)) = some (first, last) ↔
      IsNamed name first last ∧ first ≤ last ∧ last < 2 ^ 64
  /-- The name that is written for a range is read as that range. -/
  written : ∀ range, read? range.dirName = some range
  /-- Signs, blanks and all other characters are refused beside the ten digits and the hyphen. -/
  characters : ∀ rest, ∀ c ∈ rest, c ∉ Digits.figures → c ≠ '-' →
    read? ("height=".toList ++ rest) = none
  /-- A missing hyphen and further hyphens are refused. -/
  hyphens : ∀ rest, rest.count '-' ≠ 1 → read? ("height=".toList ++ rest) = none
  /-- Heights that do not fit 64 bits and heights in the wrong order are refused. -/
  bounds : ∀ start finish first last, Digits.Denotes start first → Digits.Denotes finish last →
    2 ^ 64 ≤ first ∨ 2 ^ 64 ≤ last ∨ last < first →
    read? ("height=".toList ++ start ++ '-' :: finish) = none

/-- The names of directories are read as the grammar says, at the bounds of 64 bits too. -/
theorem readsRanges_ofDirName? : ReadsRanges ofDirName? where
  grammar name first last := by
    rw [Option.map_eq_some_iff]
    constructor
    · rintro ⟨range, hRead, hBounds⟩
      obtain ⟨rfl, rfl⟩ := Prod.mk.inj hBounds
      have hNamed := ofDirName?_eq_some_iff.mp hRead
      exact ⟨hNamed, UInt64.le_iff_toNat_le.mp range.ordered, range.last.toNat_lt⟩
    · rintro ⟨hNamed, hOrdered, hSize⟩
      obtain ⟨range, rfl, rfl⟩ := exists_range hOrdered hSize
      exact ⟨range, ofDirName?_eq_some_iff.mpr hNamed, rfl⟩
  written range := by
    refine ofDirName?_eq_some_iff.mpr ?_
    exact ⟨_, _, rfl, Digits.denotes_write _, Digits.denotes_write _⟩
  characters rest c hc hFigure hHyphen := by
    rw [Option.eq_none_iff_forall_ne_some]
    intro range hRead
    obtain ⟨start, finish, rfl, hStart, hFinish⟩ := ofDirName?_marker hRead
    rcases List.mem_append.mp hc with hMem | hMem
    · exact hFigure (hStart.mem_figures c hMem)
    · rcases List.mem_cons.mp hMem with hEq | hMem
      · exact hHyphen hEq
      · exact hFigure (hFinish.mem_figures c hMem)
  hyphens rest hCount := by
    rw [Option.eq_none_iff_forall_ne_some]
    intro range hRead
    obtain ⟨start, finish, rfl, hStart, hFinish⟩ := ofDirName?_marker hRead
    have hNone {text : List Char} {n : Nat} (h : Digits.Denotes text n) : text.count '-' = 0 := by
      refine List.count_eq_zero_of_not_mem fun hMem => ?_
      exact absurd (h.mem_figures _ hMem) (by decide)
    apply hCount
    rw [List.count_append, List.count_cons_self, hNone hStart, hNone hFinish]
  bounds start finish first last hStart hFinish hBounds := by
    rw [Option.eq_none_iff_forall_ne_some]
    intro range hRead
    have hNamed := ofDirName?_eq_some_iff.mp hRead
    obtain ⟨rfl, rfl⟩ := hNamed.unique ⟨start, finish, rfl, hStart, hFinish⟩
    have hOrdered := UInt64.le_iff_toNat_le.mp range.ordered
    have hFirst := range.first.toNat_lt
    have hLast := range.last.toNat_lt
    omega

end ExportKit.Table.HeightRange
