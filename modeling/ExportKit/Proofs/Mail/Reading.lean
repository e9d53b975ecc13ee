import ExportKit.Proofs.Text.Lines
import ExportKit.Text.Base64
import ExportKit.Text.Utf8
import Mathlib.Data.List.Basic

/-!
Reading a message line by line: its header fields, which may be folded, and the parts of a
multipart message, which delimiter lines separate.
-/
namespace ExportKit.Mail.Reading

/-- A line without its line feed. -/
abbrev Line := List Char

/-- The lines before the first empty one. -/
def headerLines (lines : List Line) : List Line := lines.takeWhile (· ≠ [])

/-- The lines after the first empty one. -/
def contentLines (lines : List Line) : List Line := (lines.dropWhile (· ≠ [])).drop 1

/-- A line is continued by those after it that begin with a space. -/
def unfoldFrom (line : Line) : List Line → List Line
  | [] => [line]
  | next :: rest =>
    if next.head? = some ' ' then unfoldFrom (line ++ next) rest
    else line :: unfoldFrom next rest

/-- Header lines with each line that begins with a space joined to the one before it. -/
def unfold : List Line → List Line
  | [] => []
  | line :: rest => unfoldFrom line rest

/-- The name and the value of a header field. -/
def field? (line : Line) : Option (List Char × List Char) :=
  match line.dropWhile (· ≠ ':') with
  | _ :: value => some (line.takeWhile (· ≠ ':'), value.dropWhile (· = ' '))
  | [] => none

/-- The names of the fields in a header block. A line that is no field has none. -/
def fieldNames (lines : List Line) : List (Option (List Char)) :=
  (unfold (headerLines lines)).map fun line => (field? line).map (·.1)

/-- The value of the first field with a given name, in upper or lower case. -/
def value? (name : String) (fields : List Line) : Option (List Char) :=
  fields.findSome? fun line => do
    let (other, value) ← field? line
    if other.map Char.toLower = name.toList.map Char.toLower then some value else none

/-- What a quoted string holds, read from after its opening quote. -/
def quoted? : List Char → Option (List Char)
  | [] => none
  | '"' :: _ => some []
  | '\\' :: c :: rest => (quoted? rest).map (c :: ·)
  | c :: rest => (quoted? rest).map (c :: ·)

/-- The boundary that the content type of a multipart message gives. -/
def boundary? (contentType : List Char) : Option (List Char) := do
  let parameters ← "multipart/mixed;".toList.isPrefixOf? contentType
  let value ← "boundary=\"".toList.isPrefixOf? (parameters.dropWhile (· = ' '))
  quoted? value

/-- What a line that separates parts begins with. -/
def delimiter (boundary : List Char) : Line := '-' :: '-' :: boundary

def closing (boundary : List Char) : Line := delimiter boundary ++ ['-', '-']

/-- The lines before the first delimiter, the lines of each part, and the lines after the closing
delimiter, which has to be there. -/
def divide? (boundary : List Char) : List Line → Option (List Line × List (List Line) × List Line)
  | [] => none
  | line :: rest =>
    if (closing boundary).isPrefixOf line then some ([], [], rest)
    else do
      let (first, parts, epilogue) ← divide? boundary rest
      if (delimiter boundary).isPrefixOf line then some ([], first :: parts, epilogue)
      else some (line :: first, parts, epilogue)

/-- A part of a multipart message. -/
structure Part where
  /-- The unfolded header lines. -/
  fields : List Line
  content : List Char

namespace Part

/-- The part that some lines make up. The line feed before a delimiter belongs to that. -/
def ofLines (lines : List Line) : Part where
  fields := unfold (headerLines lines)
  content := ['\n'].intercalate (contentLines lines)

/-- The bytes that a part carries, by the encoding that it gives. -/
def decode? (part : Part) : Option (List UInt8) := do
  let encoding ← value? "Content-Transfer-Encoding" part.fields
  if encoding = "7bit".toList then some (Utf8.encode part.content)
  else if encoding = "base64".toList then Base64.decode? (part.content.filter (· ≠ '\n'))
  else none

end Part

/-- A multipart message as it is read. -/
structure Multipart where
  boundary : List Char
  parts : List Part
  /-- The lines after the closing delimiter. -/
  epilogue : List Line

def Multipart.ofText? (text : List Char) : Option Multipart := do
  let lines := Lines.split text
  let boundary ← boundary? (← value? "Content-Type" (unfold (headerLines lines)))
  let (_, parts, epilogue) ← divide? boundary (contentLines lines)
  some { boundary, parts := parts.map Part.ofLines, epilogue }

/-! Lines. -/

/-- The header ends at the first empty line. -/
theorem headerLines_append {lines : List Line} (h : [] ∉ lines) (rest : List Line) :
    headerLines (lines ++ [] :: rest) = lines := by
  have hLines : ∀ line ∈ lines, decide (line ≠ []) = true := by
    intro line hLine
    exact decide_eq_true (ne_of_mem_of_not_mem hLine h)
  rw [headerLines, List.takeWhile_append_of_pos hLines]
  simp

/-- The content begins after the first empty line. -/
theorem contentLines_append {lines : List Line} (h : [] ∉ lines) (rest : List Line) :
    contentLines (lines ++ [] :: rest) = rest := by
  have hLines : ∀ line ∈ lines, decide (line ≠ []) = true := by
    intro line hLine
    exact decide_eq_true (ne_of_mem_of_not_mem hLine h)
  rw [contentLines, List.dropWhile_append_of_pos hLines]
  simp

/-- Lines that begin with a space continue the line before them. -/
theorem unfoldFrom_append {conts : List Line} (h : ∀ line ∈ conts, line.head? = some ' ')
    (line : Line) (rest : List Line) :
    unfoldFrom line (conts ++ rest) = unfoldFrom (line ++ conts.flatten) rest := by
  induction conts generalizing line with
  | nil => simp
  | cons next conts ih =>
      have hNext := h next List.mem_cons_self
      have hRest := ih (fun other hOther => h other (List.mem_cons_of_mem _ hOther)) (line ++ next)
      rw [List.cons_append, unfoldFrom, if_pos hNext, hRest, List.flatten_cons, List.append_assoc]

/-- A line with those that continue it is one line when it is unfolded. -/
theorem unfold_append {conts : List Line} (h : ∀ line ∈ conts, line.head? = some ' ')
    (line : Line) {rest : List Line} (hRest : ∀ next ∈ rest.head?, next.head? ≠ some ' ') :
    unfold (line :: (conts ++ rest)) = (line ++ conts.flatten) :: unfold rest := by
  rw [unfold, unfoldFrom_append h]
  cases rest with
  | nil => rfl
  | cons next rest =>
      have hNext : next.head? ≠ some ' ' := hRest next rfl
      rw [unfoldFrom, if_neg hNext, unfold]

/-- A text without quotes and backslashes is what stands between quotes for it. -/
theorem quoted?_append {text : List Char} (h : ∀ c ∈ text, c ≠ '"' ∧ c ≠ '\\')
    (rest : List Char) : quoted? (text ++ '"' :: rest) = some text := by
  induction text with
  | nil => rfl
  | cons c text ih =>
      obtain ⟨hQuote, hBackslash⟩ := h c List.mem_cons_self
      have hText := ih fun other hOther => h other (List.mem_cons_of_mem _ hOther)
      rw [List.cons_append, quoted?, hText, Option.map_some]
      · exact hQuote
      · exact fun _ _ hEq => absurd hEq hBackslash

/-- The boundary is read from the content type. -/
theorem boundary?_quoted {boundary : List Char} (h : ∀ c ∈ boundary, c ≠ '"' ∧ c ≠ '\\') :
    boundary? ("multipart/mixed; boundary=\"".toList ++ boundary ++ ['"']) = some boundary := by
  have hType : "multipart/mixed;".toList.isPrefixOf?
      ("multipart/mixed; boundary=\"".toList ++ boundary ++ ['"']) =
        some (" boundary=\"".toList ++ boundary ++ ['"']) :=
    List.isPrefixOf?_eq_some_iff_append_eq.mpr rfl
  have hSpace : (" boundary=\"".toList ++ boundary ++ ['"']).dropWhile (· = ' ') =
      "boundary=\"".toList ++ boundary ++ ['"'] :=
    rfl
  have hName : "boundary=\"".toList.isPrefixOf? ("boundary=\"".toList ++ boundary ++ ['"']) =
      some (boundary ++ ['"']) :=
    List.isPrefixOf?_eq_some_iff_append_eq.mpr rfl
  simp only [boundary?, hType, hSpace, hName, Option.bind_eq_bind, Option.bind_some]
  exact quoted?_append h []

namespace Part

/-- A part marked as plain carries the bytes of its text. -/
theorem decode?_7bit {part : Part}
    (h : value? "Content-Transfer-Encoding" part.fields = some "7bit".toList) :
    part.decode? = some (Utf8.encode part.content) := by
  rw [decode?, h]
  rfl

/-- A part marked as base64 carries what its text stands for, line feeds apart. -/
theorem decode?_base64 {part : Part}
    (h : value? "Content-Transfer-Encoding" part.fields = some "base64".toList) :
    part.decode? = Base64.decode? (part.content.filter (· ≠ '\n')) := by
  rw [decode?, h]
  rfl

end Part

/-! Delimiters. -/

/-- The closing line begins as a delimiter does. -/
theorem delimiter_isPrefixOf_of_closing {boundary : List Char} {line : Line}
    (h : (closing boundary).isPrefixOf line) : (delimiter boundary).isPrefixOf line := by
  rw [List.isPrefixOf_iff_prefix] at h ⊢
  exact (List.prefix_append _ _).trans h

/-- A delimiter does not close the message. -/
theorem not_closing_isPrefixOf_delimiter (boundary : List Char) :
    ¬(closing boundary).isPrefixOf (delimiter boundary) := by
  rw [List.isPrefixOf_iff_prefix]
  intro h
  have hLength := h.length_le
  rw [closing, List.length_append, List.length_cons] at hLength
  omega

/-- Lines that do not begin like a delimiter stand within a part. -/
theorem divide?_append {boundary : List Char} {lines : List Line}
    (h : ∀ line ∈ lines, ¬(delimiter boundary).isPrefixOf line) (rest : List Line) :
    divide? boundary (lines ++ rest) = (divide? boundary rest).map
      fun (first, parts, epilogue) => (lines ++ first, parts, epilogue) := by
  induction lines with
  | nil => simp
  | cons line lines ih =>
      have hLine := h line List.mem_cons_self
      have hClosing : ¬(closing boundary).isPrefixOf line :=
        fun hPrefix => hLine (delimiter_isPrefixOf_of_closing hPrefix)
      have hRest := ih fun other hOther => h other (List.mem_cons_of_mem _ hOther)
      rw [List.cons_append, divide?, if_neg hClosing, hRest]
      cases divide? boundary rest <;> simp [hLine]

/-- A delimiter begins a new part. -/
theorem divide?_delimiter (boundary : List Char) (rest : List Line) :
    divide? boundary (delimiter boundary :: rest) = (divide? boundary rest).map
      fun (first, parts, epilogue) => ([], first :: parts, epilogue) := by
  rw [divide?, if_neg (not_closing_isPrefixOf_delimiter boundary)]
  cases divide? boundary rest <;> simp

/-- The closing line ends the last part. -/
theorem divide?_closing (boundary : List Char) (rest : List Line) :
    divide? boundary (closing boundary :: rest) = some ([], [], rest) := by
  rw [divide?, if_pos (by simp)]

end ExportKit.Mail.Reading
