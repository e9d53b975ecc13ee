import ExportKit.Path
import ExportKit.Proofs.Text.Utf8

/-!
A path followed by a name has the segments and the components of the path, and then that name,
however the path is spelled.
-/
namespace ExportKit

/-- A name that stands for an entry of a directory wherever it occurs in a path. -/
structure Name.IsProper (name : Name) : Prop where
  ne_nil : name ≠ []
  not_mem_slash : Path.slash ∉ name
  ne_dot : name ≠ [Path.dot]
  ne_dots : name ≠ [Path.dot, Path.dot]

theorem Name.ofString_injective {left right : String}
    (h : Name.ofString left = Name.ofString right) : left = right :=
  String.toList_inj.mp (Utf8.encode_injective h)

/-- A text without slashes that does not begin with a full stop names an entry of a directory. -/
theorem Name.isProper_ofString {text : String} (hEmpty : text.toList ≠ [])
    (hSlash : '/' ∉ text.toList) (hDot : text.toList.head? ≠ some '.') :
    (Name.ofString text).IsProper := by
  have hDecode (chars : List Char) (h : Name.ofString text = Utf8.encode chars) :
      text.toList = chars :=
    Utf8.encode_injective h
  refine ⟨fun h => hEmpty (hDecode [] h), fun h => ?_, fun h => ?_, fun h => ?_⟩
  · exact hSlash (Utf8.mem_of_mem_encode h (by decide))
  · rw [hDecode ['.'] h] at hDot
    exact hDot rfl
  · rw [hDecode ['.', '.'] h] at hDot
    exact hDot rfl

namespace Path

variable {name : Name}

theorem join_ofString (path : Path) (text : String) :
    path.join ⟨Name.ofString text⟩ = path.child text := rfl

theorem isAbsolute_of_isProper (h : name.IsProper) : (⟨name⟩ : Path).isAbsolute = false := by
  obtain ⟨c, rest, rfl⟩ := List.exists_cons_of_ne_nil h.ne_nil
  have hc : c ≠ slash := fun hEq => h.not_mem_slash (hEq ▸ List.mem_cons_self)
  simpa [isAbsolute] using hc

theorem exists_append_slash {path : Path} (h : path.endsInSlash) :
    ∃ start, path.bytes = start ++ [slash] := by
  simp only [endsInSlash, beq_iff_eq] at h
  exact List.getLast?_eq_some_iff.mp h

/-- How a name is put after a path: at once, if nothing or a slash precedes it, and after a slash
otherwise. -/
theorem join_cases (h : name.IsProper) (path : Path) :
    (path.bytes = [] ∧ path.join ⟨name⟩ = ⟨name⟩) ∨
      (∃ start, path.bytes = start ++ [slash] ∧ path.join ⟨name⟩ = ⟨start ++ slash :: name⟩) ∨
      (path.bytes ≠ [] ∧ path.endsInSlash = false ∧
        path.join ⟨name⟩ = ⟨path.bytes ++ slash :: name⟩) := by
  have hRelative := isAbsolute_of_isProper h
  by_cases hEmpty : path.bytes = []
  · exact .inl ⟨hEmpty, by simp [join, hRelative, hEmpty]⟩
  · cases hSlash : path.endsInSlash with
    | true =>
        obtain ⟨start, hStart⟩ := exists_append_slash hSlash
        exact .inr (.inl ⟨start, hStart, by simp [join, hRelative, hSlash, hStart]⟩)
    | false =>
        exact .inr (.inr ⟨hEmpty, rfl, by simp [join, hRelative, hEmpty, hSlash]⟩)

theorem segments_singleton (h : name.IsProper) : (⟨name⟩ : Path).segments = [name] := by
  rw [segments, List.splitOn_eq_singleton h.not_mem_slash]
  simpa using h.ne_nil

/-- A slash separates the segments before it from those after it. -/
theorem segments_append_slash (start rest : List UInt8) :
    (⟨start ++ slash :: rest⟩ : Path).segments =
      (⟨start⟩ : Path).segments ++ (⟨rest⟩ : Path).segments := by
  rw [segments, List.splitOn_append_cons_self, List.filter_append, segments, segments]

theorem segments_nil : (⟨[]⟩ : Path).segments = [] := rfl

/-- A path followed by a name leads through the segments of the path and then to the name. -/
theorem segments_join (h : name.IsProper) (path : Path) :
    (path.join ⟨name⟩).segments = path.segments ++ [name] := by
  obtain ⟨bytes⟩ := path
  obtain ⟨hEmpty, hJoin⟩ | ⟨start, hStart, hJoin⟩ | ⟨-, -, hJoin⟩ := join_cases h ⟨bytes⟩
  · obtain rfl : bytes = [] := hEmpty
    rw [hJoin, segments_singleton h, segments_nil, List.nil_append]
  · obtain rfl : bytes = start ++ [slash] := hStart
    rw [hJoin, segments_append_slash, segments_append_slash, segments_singleton h, segments_nil,
      List.append_nil]
  · rw [hJoin, segments_append_slash, segments_singleton h]

/-- A name added to a path does not change where it starts. -/
theorem isAbsolute_join (h : name.IsProper) (path : Path) :
    (path.join ⟨name⟩).isAbsolute = path.isAbsolute := by
  obtain ⟨bytes⟩ := path
  obtain ⟨hEmpty, hJoin⟩ | ⟨start, hStart, hJoin⟩ | ⟨hEmpty, -, hJoin⟩ := join_cases h ⟨bytes⟩
  · obtain rfl : bytes = [] := hEmpty
    rw [hJoin, isAbsolute_of_isProper h]
    rfl
  · obtain rfl : bytes = start ++ [slash] := hStart
    rw [hJoin]
    cases start <;> rfl
  · rw [hJoin]
    obtain ⟨c, rest, hCons⟩ := List.exists_cons_of_ne_nil hEmpty
    obtain rfl : bytes = c :: rest := hCons
    rfl

theorem endsInSlash_join (h : name.IsProper) (path : Path) :
    (path.join ⟨name⟩).endsInSlash = false := by
  have hLast : name.getLast? ≠ some slash := by
    intro hEq
    exact h.not_mem_slash (List.mem_of_getLast? hEq)
  obtain ⟨c, rest, rfl⟩ := List.exists_cons_of_ne_nil h.ne_nil
  obtain ⟨-, hJoin⟩ | ⟨start, -, hJoin⟩ | ⟨-, -, hJoin⟩ := join_cases h path
  · simpa [hJoin, endsInSlash] using hLast
  · simpa [hJoin, endsInSlash, List.getLast?_append, List.getLast?_cons_cons] using hLast
  · simpa [hJoin, endsInSlash, List.getLast?_append, List.getLast?_cons_cons] using hLast

theorem bytes_join_ne_nil (h : name.IsProper) (path : Path) : (path.join ⟨name⟩).bytes ≠ [] := by
  obtain ⟨-, hJoin⟩ | ⟨start, -, hJoin⟩ | ⟨-, -, hJoin⟩ := join_cases h path
  · rw [hJoin]
    exact h.ne_nil
  · simp [hJoin]
  · simp [hJoin]

/-- Joining adds the bytes of the name, and possibly a slash. -/
theorem mem_bytes_join (h : name.IsProper) (path : Path) {byte : UInt8} (hSlash : byte ≠ slash) :
    byte ∈ (path.join ⟨name⟩).bytes ↔ byte ∈ path.bytes ∨ byte ∈ name := by
  obtain ⟨hEmpty, hJoin⟩ | ⟨start, hStart, hJoin⟩ | ⟨-, -, hJoin⟩ := join_cases h path
  · simp [hJoin, hEmpty]
  · simp [hJoin, hStart, hSlash]
  · simp [hJoin, hSlash]

/-- A name takes at least its own length and at most that and a slash. -/
theorem length_join (h : name.IsProper) (path : Path) :
    path.bytes.length + name.length ≤ (path.join ⟨name⟩).bytes.length ∧
      (path.join ⟨name⟩).bytes.length ≤ path.bytes.length + name.length + 1 := by
  obtain ⟨hEmpty, hJoin⟩ | ⟨start, hStart, hJoin⟩ | ⟨-, -, hJoin⟩ := join_cases h path
  · simp [hJoin, hEmpty]
  · simp [hJoin, hStart]
    omega
  · simp [hJoin]
    omega

/-- After a path that ends in a name, another name takes its own length and a slash. -/
theorem length_join_join {other : Name} (h : name.IsProper) (hOther : other.IsProper)
    (path : Path) : ((path.join ⟨name⟩).join ⟨other⟩).bytes.length =
      (path.join ⟨name⟩).bytes.length + other.length + 1 := by
  have hNe := bytes_join_ne_nil h path
  have hSlash := endsInSlash_join h path
  obtain ⟨hEmpty, -⟩ | ⟨start, hStart, -⟩ | ⟨-, -, hJoin⟩ := join_cases hOther (path.join ⟨name⟩)
  · exact absurd hEmpty hNe
  · simp [endsInSlash, hStart] at hSlash
  · simp [hJoin]
    omega

theorem componentOf?_of_isProper (h : name.IsProper) : componentOf? name = some (.name name) := by
  rw [componentOf?, if_neg h.ne_dot, if_neg h.ne_dots]

/-- A path followed by a name has one more component. -/
theorem components_join (h : name.IsProper) (path : Path) :
    (path.join ⟨name⟩).components = path.components ++ [.name name] := by
  have hHead : (path.segments ++ [name]).head? = some [dot] ↔ path.segments.head? = some [dot] := by
    cases path.segments with
    | nil => simpa using h.ne_dot
    | cons first rest => simp
  simp only [components, isAbsolute_join h, segments_join h, hHead, List.filterMap_append,
    List.filterMap_cons, List.filterMap_nil, componentOf?_of_isProper h, List.append_assoc]

/-! The segments of any path. -/

/-- What holds without slashes, and with a slash between what it holds of, holds of all bytes. -/
theorem slash_induction {motive : List UInt8 → Prop}
    (plain : ∀ bytes, slash ∉ bytes → motive bytes)
    (append : ∀ before after, motive before → motive after → motive (before ++ slash :: after))
    (bytes : List UInt8) : motive bytes := by
  by_cases hSlash : slash ∈ bytes
  · obtain ⟨before, after, hBytes⟩ := List.append_of_mem hSlash
    have hLength : before.length + after.length < bytes.length := by
      rw [hBytes, List.length_append, List.length_cons]
      omega
    rw [hBytes]
    exact append before after (slash_induction plain append before)
      (slash_induction plain append after)
  · exact plain bytes hSlash
termination_by bytes.length
decreasing_by all_goals omega

/-- Without slashes there is one segment, or none if there are no bytes either. -/
theorem segments_of_not_mem {bytes : List UInt8} (h : slash ∉ bytes) :
    (⟨bytes⟩ : Path).segments = if bytes = [] then [] else [bytes] := by
  rw [segments, List.splitOn_eq_singleton h]
  split
  next hNil => simp [hNil]
  next hNil => simp [hNil]

/-- Segments are not empty and hold no slash. -/
theorem not_mem_of_mem_segments {bytes : List UInt8} :
    ∀ segment ∈ (⟨bytes⟩ : Path).segments, segment ≠ [] ∧ slash ∉ segment := by
  induction bytes using slash_induction with
  | plain bytes hSlash =>
      rw [segments_of_not_mem hSlash]
      split
      next => simp
      next hNil => simpa using And.intro hNil hSlash
  | append before after hBefore hAfter =>
      rw [segments_append_slash]
      intro segment hSegment
      exact (List.mem_append.mp hSegment).elim (hBefore segment) (hAfter segment)

/-- A segment is a name, unless it is one of the two that lead to a directory by themselves. -/
theorem isProper_of_mem_segments {path : Path} (h : name ∈ path.segments) (hDot : name ≠ [dot])
    (hDots : name ≠ [dot, dot]) : name.IsProper := by
  obtain ⟨hNe, hSlash⟩ := not_mem_of_mem_segments name h
  exact ⟨hNe, hSlash, hDot, hDots⟩

/-- A path holds the bytes of its segments and slashes. -/
theorem mem_bytes_iff {byte : UInt8} (hByte : byte ≠ slash) (bytes : List UInt8) :
    byte ∈ bytes ↔ ∃ segment ∈ (⟨bytes⟩ : Path).segments, byte ∈ segment := by
  induction bytes using slash_induction with
  | plain bytes hSlash =>
      rw [segments_of_not_mem hSlash]
      split
      next hNil => simp [hNil]
      next => simp
  | append before after hBefore hAfter =>
      rw [segments_append_slash, List.mem_append, List.mem_cons, or_iff_right hByte, hBefore,
        hAfter]
      simp only [List.mem_append, or_and_right, exists_or]

/-- A path that a text spells is shown as that text. -/
theorem display_ofString (text : String) : (ofString text).display = text := by
  rw [display, ofString, Utf8.decodeLossy_encode, String.ofList_toList]

/-- A path is shown in stretches between its slashes. -/
theorem display_append_slash (bytes : List UInt8) (text : String) :
    (⟨bytes ++ slash :: Name.ofString text⟩ : Path).display =
      (⟨bytes⟩ : Path).display ++ "/" ++ text := by
  apply String.toList_inj.mp
  have hAppend := Utf8.decodeLossy_append (show slash.toNat < 128 by decide) bytes
    (Name.ofString text)
  rw [Name.ofString, Utf8.decodeLossy_encode] at hAppend
  simp only [display, Name.ofString, hAppend, String.toList_append, String.toList_ofList]
  simp [slash]

/-- How long names are with a slash before each. -/
def size : List Name → Nat
  | [] => 0
  | name :: names => name.length + 1 + size names

theorem size_append (before after : List Name) :
    size (before ++ after) = size before + size after := by
  induction before with
  | nil => simp [size]
  | cons name before ih => simp [size, ih, Nat.add_assoc]

/-- The segments of a path take up no more bytes than the path, a slash at its beginning apart. -/
theorem size_segments_le (bytes : List UInt8) :
    size (⟨bytes⟩ : Path).segments ≤ bytes.length + 1 := by
  induction bytes using slash_induction with
  | plain bytes hSlash =>
      rw [segments_of_not_mem hSlash]
      split <;> simp [size]
  | append before after hBefore hAfter =>
      rw [segments_append_slash, size_append, List.length_append, List.length_cons]
      omega

/-- A path whose last segment is a name has that as its last component. -/
theorem fileName?_of_getLast? {path : Path} (h : path.segments.getLast? = some name)
    (hName : name.IsProper) : path.fileName? = some name := by
  obtain ⟨before, hSegments⟩ := List.getLast?_eq_some_iff.mp h
  have hComponents : path.components.getLast? = some (.name name) := by
    simp only [components, hSegments, List.filterMap_append, List.filterMap_cons,
      List.filterMap_nil, componentOf?_of_isProper hName, ← List.append_assoc,
      List.getLast?_concat]
  rw [fileName?, hComponents]

end Path

end ExportKit
