import ExportKit.Proofs.Mail.Rendering
import ExportKit.Proofs.Text.Utf8

/-!
A reader of multipart messages finds in a rendered message the body and the attachment that it was
made from.
-/
namespace ExportKit.Mail

open Header (isPlain)
open Reading

/-- The lines of a part are read as its fields and its content. -/
theorem Reading.Part.ofLines_partLines {fields : List (String × List Char)} (h : Writable fields)
    (content : List Line) :
    Part.ofLines (partLines fields content) = ⟨unfoldedLines fields, Lines.join content⟩ := by
  have hNil := not_nil_mem_blockLines h
  rw [Part.ofLines, partLines, headerLines_append hNil, contentLines_append hNil,
    unfold_blockLines h, Lines.intercalate_append_nil]

namespace Message

/-- The lines of a part are not taken for a delimiter if those of its content are not. -/
theorem not_delimiter_of_mem_partLines {fields : List (String × List Char)} {content : List Line}
    {boundary : List Char} (hFields : Writable fields)
    (hContent : ∀ line ∈ content, ¬(delimiter boundary).isPrefixOf line) {line : Line}
    (h : line ∈ partLines fields content) : ¬(delimiter boundary).isPrefixOf line := by
  rw [partLines, List.mem_append, List.mem_cons, List.mem_append, List.mem_singleton] at h
  rcases h with h | rfl | h | rfl
  · exact (isHeaderLine_of_mem_blockLines hFields h).not_delimiter boundary
  · simp [delimiter]
  · exact hContent line h
  · simp [delimiter]

/-- No line of base64 text is taken for a delimiter. -/
theorem not_delimiter_of_mem_base64 {bytes : List UInt8} {line : Line}
    (h : line ∈ Base64.lines bytes) (boundary : List Char) :
    ¬(delimiter boundary).isPrefixOf line := by
  intro hPrefix
  have hMinus : '-' ∈ line :=
    (List.isPrefixOf_iff_prefix.mp hPrefix).subset (by simp [delimiter])
  exact absurd (Base64.mem_alphabet_of_mem_lines h hMinus) (by decide)

/-- The line feed that may be added to a body does not make a delimiter of one of its lines. -/
theorem not_delimiter_of_mem_bodyLines {body boundary : List Char}
    (hBody : isAscii body → ∀ line ∈ Lines.split body, ¬(delimiter boundary).isPrefixOf line)
    {line : Line} (h : line ∈ bodyLines body) : ¬(delimiter boundary).isPrefixOf line := by
  rw [bodyLines] at h
  cases hAscii : isAscii body with
  | false =>
      rw [hAscii] at h
      exact not_delimiter_of_mem_base64 h boundary
  | true =>
      rw [hAscii, if_pos rfl, endLine] at h
      by_cases hLast : body.getLast? = some '\n'
      · rw [if_pos hLast] at h
        exact hBody hAscii line h
      · rw [if_neg hLast] at h
        by_cases hEmpty : body = []
        · subst hEmpty
          have hLine : line = [] := by simpa [Lines.split] using h
          simp [hLine, delimiter]
        · rw [Lines.split_append_newline_of_getLast? hEmpty hLast] at h
          exact hBody hAscii line h

/-- The body is marked as plain or as base64, by what it holds. -/
theorem value?_bodyFields (body : List Char) :
    value? "Content-Transfer-Encoding" (unfoldedLines (bodyFields body)) =
      some (if isAscii body then "7bit" else "base64").toList := by
  rw [bodyFields]
  cases isAscii body with
  | true => rfl
  | false => rfl

theorem value?_attachmentFields (attachment : Attachment) :
    value? "Content-Transfer-Encoding" (unfoldedLines (attachmentFields attachment)) =
      some "base64".toList := by
  simp [unfoldedLines, attachmentFields, value?, field?]

/-- The content type of a message gives its boundary. -/
theorem exists_value?_fields (message : Message) {boundary : String}
    (h : ∀ c ∈ boundary.toList, isPlain c ∧ c ≠ '"' ∧ c ≠ '\\') :
    ∃ contentType, value? "Content-Type" (unfoldedLines (message.fields boundary)) =
      some contentType ∧ boundary? contentType = some boundary.toList := by
  have hPlain : ∀ c ∈ boundary.toList ++ ['"'], isPlain c :=
    List.forall_mem_append.mpr ⟨fun c hc => (h c hc).1,
      List.forall_mem_singleton.mpr (by decide)⟩
  have hFilter := filter_newline_of_isPlain hPlain
  refine ⟨_, ?_, boundary?_quoted fun c hc => (h c hc).2⟩
  simp [unfoldedLines, fields, value?, field?] at hFilter ⊢
  exact hFilter

/-- Two parts none of whose lines is taken for a delimiter are told apart. -/
theorem divide?_parts {boundary : List Char} {first second : List Line}
    (hFirst : ∀ line ∈ first, ¬(delimiter boundary).isPrefixOf line)
    (hSecond : ∀ line ∈ second, ¬(delimiter boundary).isPrefixOf line) :
    divide? boundary (delimiter boundary ::
      (first ++ delimiter boundary :: (second ++ [closing boundary]))) =
        some ([], [first, second], []) := by
  rw [divide?_delimiter, divide?_append hFirst, divide?_delimiter, divide?_append hSecond,
    divide?_closing]
  simp

/-- Of a message with two parts only the delimiters begin as delimiters do. -/
theorem filter_delimiter_parts {boundary : List Char} {header first second : List Line}
    (hHeader : ∀ line ∈ header, ¬(delimiter boundary).isPrefixOf line)
    (hFirst : ∀ line ∈ first, ¬(delimiter boundary).isPrefixOf line)
    (hSecond : ∀ line ∈ second, ¬(delimiter boundary).isPrefixOf line) :
    (header ++ [] :: delimiter boundary ::
      (first ++ delimiter boundary :: (second ++ [closing boundary]))).filter
        (delimiter boundary).isPrefixOf =
      [delimiter boundary, delimiter boundary, closing boundary] := by
  have hSelf : (delimiter boundary).isPrefixOf (delimiter boundary) := by simp
  have hClosing : (delimiter boundary).isPrefixOf (closing boundary) := by
    rw [List.isPrefixOf_iff_prefix]
    exact List.prefix_append _ _
  have hEmpty : ¬(delimiter boundary).isPrefixOf [] := by simp [delimiter]
  have hNone {lines : List Line}
      (h : ∀ line ∈ lines, ¬(delimiter boundary).isPrefixOf line) :
      lines.filter (delimiter boundary).isPrefixOf = [] :=
    List.filter_eq_nil_iff.mpr h
  simp only [List.filter_append, List.filter_cons, hNone hHeader, hNone hFirst, hNone hSecond,
    if_pos hSelf, if_pos hClosing, if_neg hEmpty, List.filter_nil, List.nil_append]

/-- A reader of multipart messages finds in a rendered message exactly two parts, which carry the
body, with a line feed added at its end if it is ASCII and has none there, and the bytes of the
attachment. The last line is the closing delimiter, and no line but the three that are written to
separate the parts is taken for a delimiter. -/
theorem multipart_of_render (message : Message) (boundary : String)
    (hType : ∀ c ∈ message.attachment.contentType.name.toList, isPlain c)
    (hBoundary : ∀ c ∈ boundary.toList, isPlain c ∧ c ≠ '"' ∧ c ≠ '\\')
    (hBody : isAscii message.body.toList →
      ∀ line ∈ Lines.split message.body.toList, ¬(delimiter boundary.toList).isPrefixOf line) :
    ∃ body attachment,
      Multipart.ofText? (message.render boundary).toList =
        some { boundary := boundary.toList, parts := [body, attachment], epilogue := [] } ∧
      body.decode? = some (Utf8.encode (if isAscii message.body.toList
        then endLine message.body.toList else message.body.toList)) ∧
      attachment.decode? = some message.attachment.data ∧
      (Lines.split (message.render boundary).toList).getLast? = some (closing boundary.toList) ∧
      (Lines.split (message.render boundary).toList).filter (delimiter boundary.toList).isPrefixOf =
        [delimiter boundary.toList, delimiter boundary.toList, closing boundary.toList] := by
  have hPlain : ∀ c ∈ boundary.toList, isPlain c := fun c hc => (hBoundary c hc).1
  have hFields := message.writable_fields hPlain
  have hBodyFields := writable_bodyFields message.body.toList
  have hAttachmentFields := writable_attachmentFields hType
  have hNil := not_nil_mem_blockLines hFields
  have hSplit : Lines.split (message.render boundary).toList = message.lines boundary := by
    rw [render, String.toList_ofList, split_chars hType hPlain]
  have hHeader : ∀ line ∈ blockLines (message.fields boundary),
      ¬(delimiter boundary.toList).isPrefixOf line :=
    fun _ hLine => (isHeaderLine_of_mem_blockLines hFields hLine).not_delimiter _
  have hFirst : ∀ line ∈ partLines (bodyFields message.body.toList)
      (bodyLines message.body.toList), ¬(delimiter boundary.toList).isPrefixOf line :=
    fun _ => not_delimiter_of_mem_partLines hBodyFields
      fun _ => not_delimiter_of_mem_bodyLines hBody
  have hSecond : ∀ line ∈ partLines (attachmentFields message.attachment)
      (Base64.lines message.attachment.data), ¬(delimiter boundary.toList).isPrefixOf line :=
    fun _ => not_delimiter_of_mem_partLines hAttachmentFields
      fun _ hLine => not_delimiter_of_mem_base64 hLine _
  refine ⟨⟨unfoldedLines (bodyFields message.body.toList),
      Lines.join (bodyLines message.body.toList)⟩,
    ⟨unfoldedLines (attachmentFields message.attachment),
      Base64.encodeLines message.attachment.data⟩, ?_, ?_, ?_, ?_, ?_⟩
  · obtain ⟨contentType, hValue, hGiven⟩ := exists_value?_fields message hBoundary
    rw [Multipart.ofText?, hSplit, lines, headerLines_append hNil, contentLines_append hNil,
      unfold_blockLines hFields, hValue]
    simp only [Option.bind_eq_bind, Option.bind_some, hGiven, divide?_parts hFirst hSecond,
      List.map_cons, List.map_nil, Part.ofLines_partLines hBodyFields,
      Part.ofLines_partLines hAttachmentFields]
    rfl
  · have hEncoding := value?_bodyFields message.body.toList
    rw [join_bodyLines]
    cases hAscii : isAscii message.body.toList with
    | true =>
        rw [hAscii] at hEncoding
        exact Part.decode?_7bit hEncoding
    | false =>
        rw [hAscii] at hEncoding
        exact (Part.decode?_base64 hEncoding).trans (Base64.decode?_filter_encodeLines _)
  · exact (Part.decode?_base64 (value?_attachmentFields _)).trans
      (Base64.decode?_filter_encodeLines _)
  · rw [hSplit, lines]
    simp [List.getLast?_cons]
  · rw [hSplit, lines]
    exact filter_delimiter_parts hHeader hFirst hSecond

/-- The texts of the intruder do not break out of the two parts. -/
theorem multipart_of_intruder : ∃ body attachment,
    Multipart.ofText? (intruder.render "frontier").toList =
      some { boundary := "frontier".toList, parts := [body, attachment], epilogue := [] } ∧
    body.decode? = some (Utf8.encode "-- frontier\n".toList) ∧
    attachment.decode? = some [0, 255] := by
  have hType : ∀ c ∈ intruder.attachment.contentType.name.toList, isPlain c :=
    List.all_eq_true.mp (by decide)
  have hBoundary : ∀ c ∈ "frontier".toList, isPlain c := List.all_eq_true.mp (by decide)
  obtain ⟨body, attachment, hRead, hBody, hData, -⟩ :=
    multipart_of_render intruder "frontier" hType
      (fun c hc => ⟨hBoundary c hc, ne_of_mem_of_not_mem hc (by decide),
        ne_of_mem_of_not_mem hc (by decide)⟩) (by decide)
  exact ⟨body, attachment, hRead, hBody, hData⟩

end Message

end ExportKit.Mail
