import ExportKit.Mail.Message
import ExportKit.Proofs.Mail.Folding

/-!
The lines of a rendered message: a header block, and for each part a delimiter, a header block and
the content. No text that a message is made from adds a line to a header block.
-/
namespace ExportKit.Mail

open Header (isPlain)
open Reading

/-- What a header line begins with: printable ASCII that neither continues another line nor is
taken for a delimiter. -/
def IsFieldStart (start : List Char) : Prop :=
  (∃ c ∈ start.head?, c ≠ ' ' ∧ c ≠ '-') ∧ ∀ c ∈ start, isPlain c

instance (start : List Char) : Decidable (IsFieldStart start) :=
  decidable_of_iff (start.head?.any (fun c => c ≠ ' ' && c ≠ '-') && start.all isPlain)
    (by simp [IsFieldStart, Option.any_eq_true])

/-- A line of printable ASCII that is neither empty nor taken for a delimiter. -/
def IsHeaderLine (line : Line) : Prop := (∃ c ∈ line.head?, c ≠ '-') ∧ ∀ c ∈ line, isPlain c

theorem IsHeaderLine.ne_nil {line : Line} (h : IsHeaderLine line) : line ≠ [] := by
  obtain ⟨⟨c, hc, -⟩, -⟩ := h
  rintro rfl
  simp at hc

theorem IsHeaderLine.not_newline_mem {line : Line} (h : IsHeaderLine line) : '\n' ∉ line := by
  intro hMem
  exact absurd (h.2 '\n' hMem) (by decide)

/-- A header line is not taken for a delimiter. -/
theorem IsHeaderLine.not_delimiter {line : Line} (h : IsHeaderLine line) (boundary : List Char) :
    ¬(delimiter boundary).isPrefixOf line := by
  obtain ⟨⟨c, hc, hMinus⟩, -⟩ := h
  cases line with
  | nil => simp at hc
  | cons first rest =>
      have hFirst : first = c := by simpa using hc
      simp [delimiter, hFirst, Ne.symm hMinus]

theorem not_newline_mem_of_isPlain {text : List Char} (h : ∀ c ∈ text, isPlain c) :
    '\n' ∉ text := by
  intro hMem
  exact absurd (h '\n' hMem) (by decide)

theorem filter_newline_of_isPlain {text : List Char} (h : ∀ c ∈ text, isPlain c) :
    text.filter (· ≠ '\n') = text := by
  apply List.filter_eq_self.mpr
  intro c hc
  exact decide_eq_true (ne_of_mem_of_not_mem hc (not_newline_mem_of_isPlain h))

/-- The lines of a value that follows the start of a header line: the rest of that line, and lines
that continue it. -/
theorem split_folded {value : List Char} (h : Folded value) {start : List Char}
    (hStart : ∀ c ∈ start, isPlain c) :
    ∃ first conts, Lines.split (start ++ value ++ ['\n']) = (start ++ first) :: conts ∧
      (∀ c ∈ first, isPlain c) ∧
      (∀ line ∈ conts, line.head? = some ' ' ∧ ∀ c ∈ line, isPlain c) ∧
      first ++ conts.flatten = value.filter (· ≠ '\n') := by
  induction h generalizing start with
  | @plain text hPlain =>
      have hLine := not_newline_mem_of_isPlain (List.forall_mem_append.mpr ⟨hStart, hPlain⟩)
      refine ⟨text, [], Lines.split_append_newline hLine [], hPlain, by simp, ?_⟩
      rw [filter_newline_of_isPlain hPlain, List.flatten_nil, List.append_nil]
  | @fold text rest hPlain _ ih =>
      have hLine := not_newline_mem_of_isPlain (List.forall_mem_append.mpr ⟨hStart, hPlain⟩)
      have hSpace : ∀ c ∈ [' '], isPlain c := List.all_eq_true.mp (by decide)
      obtain ⟨first, conts, hSplit, hFirst, hConts, hValue⟩ := ih hSpace
      have hCont : ∀ c ∈ ' ' :: first, isPlain c :=
        List.forall_mem_append.mpr ⟨hSpace, hFirst⟩
      refine ⟨text, (' ' :: first) :: conts, ?_, hPlain, ?_, ?_⟩
      · have hText : start ++ (text ++ Header.fold ++ rest) ++ ['\n'] =
            (start ++ text) ++ '\n' :: ([' '] ++ rest ++ ['\n']) := by
          simp [Header.fold]
        rw [hText, Lines.split_append_newline hLine, hSplit]
        rfl
      · exact List.forall_mem_cons.mpr ⟨⟨rfl, hCont⟩, hConts⟩
      · have hFold : Header.fold.filter (· ≠ '\n') = [' '] := by decide
        rw [List.filter_append, List.filter_append, filter_newline_of_isPlain hPlain, hFold,
          List.flatten_cons, List.append_assoc, ← hValue]
        rfl

/-! Header blocks, each field given by the start of its line and the rest of it. -/

/-- Fields that can be written one to a line. -/
def Writable (fields : List (String × List Char)) : Prop :=
  ∀ field ∈ fields, IsFieldStart field.1.toList ∧ Folded field.2

def blockLines (fields : List (String × List Char)) : List Line :=
  fields.flatMap fun field => Lines.split (Message.line field.1 field.2)

/-- The fields of a header block, each on one line. -/
def unfoldedLines (fields : List (String × List Char)) : List Line :=
  fields.map fun field => field.1.toList ++ field.2.filter (· ≠ '\n')

/-- The lines of a header block are those of its fields. -/
theorem join_blockLines (fields : List (String × List Char)) :
    Lines.join (blockLines fields) = fields.flatMap fun field => Message.line field.1 field.2 := by
  induction fields with
  | nil => rfl
  | cons field fields ih =>
      have hAppend (left right : List Line) :
          Lines.join (left ++ right) = Lines.join left ++ Lines.join right := by
        simp [Lines.join]
      rw [blockLines, List.flatMap_cons, hAppend, Message.line, Lines.join_split,
        List.flatMap_cons, ← ih]
      rfl

/-- The lines of a header block are header lines. -/
theorem isHeaderLine_of_mem_blockLines {fields : List (String × List Char)} (h : Writable fields)
    {line : Line} (hLine : line ∈ blockLines fields) : IsHeaderLine line := by
  obtain ⟨field, hField, hLine⟩ := List.mem_flatMap.mp hLine
  obtain ⟨⟨hHead, hStart⟩, hFolded⟩ := h field hField
  obtain ⟨first, conts, hSplit, hFirst, hConts, -⟩ := split_folded hFolded hStart
  rw [Message.line, hSplit, List.mem_cons] at hLine
  rcases hLine with rfl | hLine
  · obtain ⟨c, hc, -, hMinus⟩ := hHead
    refine ⟨⟨c, ?_, hMinus⟩, List.forall_mem_append.mpr ⟨hStart, hFirst⟩⟩
    rw [List.head?_append, hc]
    rfl
  · obtain ⟨hSpace, hPlain⟩ := hConts line hLine
    exact ⟨⟨' ', hSpace, by decide⟩, hPlain⟩

/-- No empty line ends a header block early. -/
theorem not_nil_mem_blockLines {fields : List (String × List Char)} (h : Writable fields) :
    [] ∉ blockLines fields := by
  intro hMem
  exact (isHeaderLine_of_mem_blockLines h hMem).ne_nil rfl

/-- However the fields of a header block are folded, they are unfolded to one line each. -/
theorem unfold_blockLines {fields : List (String × List Char)} (h : Writable fields) :
    unfold (blockLines fields) = unfoldedLines fields := by
  induction fields with
  | nil => rfl
  | cons field fields ih =>
      obtain ⟨⟨hHead, hStart⟩, hFolded⟩ := h field List.mem_cons_self
      have hRest : Writable fields := fun other hOther => h other (List.mem_cons_of_mem _ hOther)
      obtain ⟨first, conts, hSplit, -, hConts, hValue⟩ := split_folded hFolded hStart
      have hNext : ∀ next ∈ (blockLines fields).head?, next.head? ≠ some ' ' := by
        cases fields with
        | nil => simp [blockLines]
        | cons next fields =>
            obtain ⟨⟨⟨c, hc, hSpace, -⟩, hNextStart⟩, hNextFolded⟩ := hRest next List.mem_cons_self
            obtain ⟨nextFirst, nextConts, hNextSplit, -⟩ := split_folded hNextFolded hNextStart
            intro line hLine
            rw [blockLines, List.flatMap_cons, Message.line, hNextSplit, List.cons_append,
              List.head?_cons, Option.mem_some_iff] at hLine
            subst hLine
            rw [List.head?_append, hc]
            simpa using hSpace
      have hUnfold := unfold_append (fun line hLine => (hConts line hLine).1)
        (field.1.toList ++ first) hNext
      rw [List.append_assoc, hValue, ih hRest] at hUnfold
      rw [blockLines, List.flatMap_cons, Message.line, hSplit, List.cons_append]
      exact hUnfold

/-! Messages. -/

/-- The lines of a part, up to the empty one before the delimiter that follows it. -/
def partLines (fields : List (String × List Char)) (content : List Line) : List Line :=
  blockLines fields ++ [] :: (content ++ [[]])

namespace Message

def fields (message : Message) (boundary : String) : List (String × List Char) :=
  [("Subject: ", Header.encode message.subject.toList),
    ("From: ", Address.encode message.sender.toList),
    ("To: ", Address.encode message.recipient.toList),
    ("MIME-Version: 1.0", []),
    ("Content-Type: multipart/mixed; boundary=\"", boundary.toList ++ ['"'])]

/-- Whether a body stands in a message as it is. -/
def isAscii (body : List Char) : Bool := body.all fun c => c.toNat < 128

def bodyFields (body : List Char) : List (String × List Char) :=
  [("Content-Type: text/plain; charset=\"utf-8\"", []),
    (if isAscii body then "Content-Transfer-Encoding: 7bit"
      else "Content-Transfer-Encoding: base64", [])]

def bodyLines (body : List Char) : List Line :=
  if isAscii body then Lines.split (endLine body) else Base64.lines (Utf8.encode body)

def attachmentFields (attachment : Attachment) : List (String × List Char) :=
  [("Content-Type: ", attachment.contentType.name.toList),
    ("Content-Disposition: attachment; ", Filename.parameter attachment.filename.toList),
    ("Content-Transfer-Encoding: base64", [])]

def lines (message : Message) (boundary : String) : List Line :=
  blockLines (message.fields boundary) ++ [] :: delimiter boundary.toList ::
    (partLines (bodyFields message.body.toList) (bodyLines message.body.toList) ++
      delimiter boundary.toList ::
        (partLines (attachmentFields message.attachment) (Base64.lines message.attachment.data) ++
          [closing boundary.toList]))

/-- The fields of a message can be written, whatever its texts hold. -/
theorem writable_fields (message : Message) {boundary : String}
    (h : ∀ c ∈ boundary.toList, isPlain c) : Writable (message.fields boundary) := by
  have hBoundary : ∀ c ∈ boundary.toList ++ ['"'], isPlain c :=
    List.forall_mem_append.mpr ⟨h, List.forall_mem_singleton.mpr (by decide)⟩
  simp only [Writable, fields, List.forall_mem_cons]
  refine ⟨⟨by decide, Header.folded_encode _⟩, ⟨by decide, Address.folded_encode _⟩,
    ⟨by decide, Address.folded_encode _⟩, ⟨by decide, .plain (by simp)⟩,
    ⟨by decide, .plain hBoundary⟩, by simp⟩

theorem writable_bodyFields (body : List Char) : Writable (bodyFields body) := by
  simp only [Writable, bodyFields, List.forall_mem_cons]
  refine ⟨⟨by decide, .plain (by simp)⟩, ⟨?_, .plain (by simp)⟩, by simp⟩
  cases isAscii body <;> decide

/-- The fields of an attachment can be written, whatever its name is. -/
theorem writable_attachmentFields {attachment : Attachment}
    (h : ∀ c ∈ attachment.contentType.name.toList, isPlain c) :
    Writable (attachmentFields attachment) := by
  simp only [Writable, attachmentFields, List.forall_mem_cons]
  refine ⟨⟨by decide, .plain h⟩, ⟨by decide, .plain fun c => Filename.isPlain_of_mem_parameter⟩,
    ⟨by decide, .plain (by simp)⟩, by simp⟩

theorem exists_endLine (text : List Char) : ∃ start, endLine text = start ++ ['\n'] := by
  by_cases h : text.getLast? = some '\n'
  · obtain ⟨start, hStart⟩ := List.getLast?_eq_some_iff.mp h
    exact ⟨start, by rw [endLine, if_pos h, hStart]⟩
  · exact ⟨text, by rw [endLine, if_neg h]⟩

/-- The content of the body part is the text or its base64 form. -/
theorem join_bodyLines (body : List Char) : Lines.join (bodyLines body) =
    if isAscii body then endLine body else Base64.encodeLines (Utf8.encode body) := by
  cases h : isAscii body with
  | true =>
      obtain ⟨start, hStart⟩ := exists_endLine body
      rw [bodyLines, h, if_pos rfl, if_pos rfl, hStart, Lines.join_split]
  | false =>
      rw [bodyLines, h]
      rfl

theorem not_newline_mem_base64 {bytes : List UInt8} {line : Line}
    (h : line ∈ Base64.lines bytes) : '\n' ∉ line := by
  intro hMem
  exact absurd (Base64.mem_alphabet_of_mem_lines h hMem) (by decide)

theorem not_newline_mem_bodyLines {body : List Char} {line : Line} (h : line ∈ bodyLines body) :
    '\n' ∉ line := by
  rw [bodyLines] at h
  cases hAscii : isAscii body with
  | true =>
      rw [hAscii, if_pos rfl] at h
      exact Lines.not_newline_mem_split h
  | false =>
      rw [hAscii] at h
      exact not_newline_mem_base64 h

/-- A message is the text of its lines. -/
theorem chars_eq_join (message : Message) (boundary : String) :
    message.chars boundary = Lines.join (message.lines boundary) := by
  have hAppend (left right : List Line) :
      Lines.join (left ++ right) = Lines.join left ++ Lines.join right := by
    simp [Lines.join]
  have hData : Lines.join (Base64.lines message.attachment.data) =
      Base64.encodeLines message.attachment.data := rfl
  have hHeaders : (message.fields boundary).flatMap (fun field => line field.1 field.2) =
      message.headers boundary := by
    simp [fields, headers]
  have hBody : (bodyFields message.body.toList).flatMap (fun field => line field.1 field.2) ++
      line "" [] ++ Lines.join (bodyLines message.body.toList) =
        bodyPart message.body.toList := by
    rw [join_bodyLines, bodyPart, bodyFields, ← isAscii]
    cases isAscii message.body.toList <;> simp
  have hAttachment : (attachmentFields message.attachment).flatMap
      (fun field => line field.1 field.2) ++ line "" [] ++
        Base64.encodeLines message.attachment.data = attachmentPart message.attachment := by
    simp [attachmentFields, attachmentPart]
  rw [chars, ← hHeaders, ← hBody, ← hAttachment]
  simp [lines, partLines, hAppend, join_blockLines, hData, line, delimiter, closing]

theorem not_newline_mem_partLines {fields : List (String × List Char)} {content : List Line}
    (hFields : Writable fields) (hContent : ∀ line ∈ content, '\n' ∉ line) {line : Line}
    (h : line ∈ partLines fields content) : '\n' ∉ line := by
  rw [partLines, List.mem_append, List.mem_cons, List.mem_append, List.mem_singleton] at h
  rcases h with h | rfl | h | rfl
  · exact (isHeaderLine_of_mem_blockLines hFields h).not_newline_mem
  · simp
  · exact hContent line h
  · simp

/-- The lines that a reader finds in a message are those that it is made from. -/
theorem split_chars {message : Message} {boundary : String}
    (hType : ∀ c ∈ message.attachment.contentType.name.toList, isPlain c)
    (hBoundary : ∀ c ∈ boundary.toList, isPlain c) :
    Lines.split (message.chars boundary) = message.lines boundary := by
  have hDelimiter : '\n' ∉ delimiter boundary.toList := by
    apply not_newline_mem_of_isPlain
    exact List.forall_mem_cons.mpr ⟨by decide, List.forall_mem_cons.mpr ⟨by decide, hBoundary⟩⟩
  have hClosing : '\n' ∉ closing boundary.toList := by
    simpa [closing] using hDelimiter
  have hLines : ∀ line ∈ message.lines boundary, '\n' ∉ line := by
    intro line h
    rw [lines] at h
    simp only [List.mem_append, List.mem_cons, List.not_mem_nil, or_false] at h
    rcases h with h | rfl | rfl | h | rfl | h | rfl
    · exact (isHeaderLine_of_mem_blockLines (message.writable_fields hBoundary) h).not_newline_mem
    · simp
    · exact hDelimiter
    · exact not_newline_mem_partLines (writable_bodyFields _)
        (fun _ => not_newline_mem_bodyLines) h
    · exact hDelimiter
    · exact not_newline_mem_partLines (writable_attachmentFields hType)
        (fun _ => not_newline_mem_base64) h
    · exact hClosing
  have hSplit := Lines.split_join_append hLines []
  rw [List.append_nil, ← chars_eq_join] at hSplit
  simpa [Lines.split] using hSplit

/-- In a block of fields that can be written, the names that a reader finds are theirs. -/
theorem fieldNames_of_writable {fields : List (String × List Char)} (h : Writable fields)
    (rest : List Line) : fieldNames (blockLines fields ++ [] :: rest) =
      (unfoldedLines fields).map fun line => (field? line).map (·.1) := by
  rw [fieldNames, headerLines_append (not_nil_mem_blockLines h), unfold_blockLines h]

/-- After the last delimiter that is written there is no line that equals it. -/
theorem delimiter_not_mem_attachmentLines {attachment : Attachment}
    (hType : ∀ c ∈ attachment.contentType.name.toList, isPlain c) (boundary : List Char) :
    delimiter boundary ∉
      partLines (attachmentFields attachment) (Base64.lines attachment.data) ++
        [closing boundary] := by
  intro h
  rw [partLines] at h
  simp only [List.mem_append, List.mem_cons, List.not_mem_nil, or_false] at h
  rcases h with (h | h | h | h) | h
  · have hLine := isHeaderLine_of_mem_blockLines (writable_attachmentFields hType) h
    exact hLine.not_delimiter boundary (by simp)
  · simp [delimiter] at h
  · have hMinus : '-' ∈ '=' :: Base64.alphabet :=
      Base64.mem_alphabet_of_mem_lines h (by simp [delimiter])
    exact absurd hMinus (by decide)
  · simp [delimiter] at h
  · simp [closing] at h

/-- No text that a message is made from adds a field to one of its header blocks: that of the
message ends at the first empty line, and that of the attachment begins after the last delimiter.
All characters in them are printable ASCII. -/
theorem header_blocks_of_render (message : Message) (boundary : String)
    (hType : ∀ c ∈ message.attachment.contentType.name.toList, isPlain c)
    (hBoundary : ∀ c ∈ boundary.toList, isPlain c) :
    fieldNames (Lines.split (message.render boundary).toList) =
        ["Subject", "From", "To", "MIME-Version", "Content-Type"].map (some ·.toList) ∧
      (∀ line ∈ headerLines (Lines.split (message.render boundary).toList),
        ∀ c ∈ line, isPlain c) ∧
      ∃ before part, Lines.split (message.render boundary).toList =
          before ++ delimiter boundary.toList :: part ∧
        delimiter boundary.toList ∉ part ∧ [] ∈ part ∧
        fieldNames part =
          ["Content-Type", "Content-Disposition", "Content-Transfer-Encoding"].map
            (some ·.toList) ∧
        ∀ line ∈ headerLines part, ∀ c ∈ line, isPlain c := by
  have hFields := message.writable_fields hBoundary
  have hAttachment := writable_attachmentFields hType
  have hSplit : Lines.split (message.render boundary).toList = message.lines boundary := by
    rw [render, String.toList_ofList, split_chars hType hBoundary]
  rw [hSplit]
  refine ⟨?_, ?_, blockLines (message.fields boundary) ++ [] :: delimiter boundary.toList ::
    partLines (bodyFields message.body.toList) (bodyLines message.body.toList),
    partLines (attachmentFields message.attachment) (Base64.lines message.attachment.data) ++
      [closing boundary.toList], by simp [lines],
    delimiter_not_mem_attachmentLines hType _, by simp [partLines], ?_, ?_⟩
  · rw [lines, fieldNames_of_writable hFields]
    simp [unfoldedLines, fields, field?]
  · rw [lines, headerLines_append (not_nil_mem_blockLines hFields)]
    intro line hLine
    exact (isHeaderLine_of_mem_blockLines hFields hLine).2
  · rw [partLines, List.append_assoc, List.cons_append, fieldNames_of_writable hAttachment]
    simp [unfoldedLines, attachmentFields, field?]
  · rw [partLines, List.append_assoc, List.cons_append,
      headerLines_append (not_nil_mem_blockLines hAttachment)]
    intro line hLine
    exact (isHeaderLine_of_mem_blockLines hAttachment hLine).2

/-- A message whose texts try to add header fields and to end a part. -/
def intruder : Message where
  sender := "Eve\r\nBcc: all <eve@example.com>"
  recipient := "<bob@example.com>\n\n--frontier"
  subject := "Plans\r\nContent-Type: text/html\r\n\r\n--frontier--"
  body := "-- frontier"
  attachment :=
    { filename := "a\"\n--frontier"
      contentType := .other "text/html; name=\"--frontier\""
      data := [0, 255] }

/-- The texts of the intruder add no header field. -/
theorem header_blocks_of_intruder :
    (∀ c ∈ intruder.attachment.contentType.name.toList, isPlain c) ∧
      (∀ c ∈ "frontier".toList, isPlain c) ∧
      fieldNames (Lines.split (intruder.render "frontier").toList) =
        ["Subject", "From", "To", "MIME-Version", "Content-Type"].map (some ·.toList) := by
  have hType : ∀ c ∈ intruder.attachment.contentType.name.toList, isPlain c :=
    List.all_eq_true.mp (by decide)
  have hBoundary : ∀ c ∈ "frontier".toList, isPlain c := List.all_eq_true.mp (by decide)
  exact ⟨hType, hBoundary, (header_blocks_of_render intruder "frontier" hType hBoundary).1⟩

end Message

end ExportKit.Mail
