import ExportKit.Mail.Notification
import ExportKit.Proofs.Documents
import ExportKit.Proofs.Mail.Multipart

/-!
What the recipient of an envelope finds in it: the attachment of the message about a file is the
content of the file. Main statement: `exists_compose_carried`.
-/
namespace ExportKit.Mail

open Header (isPlain)
open Reading

namespace Reading

namespace Part

/-- Whether a part is to be saved under a name rather than shown with the message. -/
def isAttachment (part : Part) : Bool :=
  (value? "Content-Disposition" part.fields).any fun value =>
    (value.takeWhile (· ≠ ';')).map Char.toLower = "attachment".toList

/-- The bytes that a part carries in base64. -/
def base64? (part : Part) : Option (List UInt8) :=
  if value? "Content-Transfer-Encoding" part.fields = some "base64".toList then part.decode?
  else none

end Part

namespace Multipart

/-- The parts of a message that are attachments. -/
def attachments (message : Multipart) : List Part := message.parts.filter Part.isAttachment

/-- What the attachment of a message carries in base64, if it has exactly one. -/
def attached? (message : Multipart) : Option (List UInt8) :=
  match message.attachments with
  | [part] => part.base64?
  | _ => none

/-- Two parts that are written into a message are the parts that are read. -/
theorem ofText?_of_lines {text boundary contentType : List Char}
    {fields bodyFields dataFields : List (String × List Char)} {body data : List Line}
    (hFields : Writable fields) (hBodyFields : Writable bodyFields)
    (hDataFields : Writable dataFields)
    (hType : value? "Content-Type" (unfoldedLines fields) = some contentType)
    (hBoundary : boundary? contentType = some boundary)
    (hBody : ∀ line ∈ body, ¬(delimiter boundary).isPrefixOf line)
    (hData : ∀ line ∈ data, ¬(delimiter boundary).isPrefixOf line)
    (hText : Lines.split text = blockLines fields ++ [] :: delimiter boundary ::
      (partLines bodyFields body ++ delimiter boundary ::
        (partLines dataFields data ++ [closing boundary]))) :
    ofText? text = some
      { boundary
        parts := [⟨unfoldedLines bodyFields, Lines.join body⟩,
          ⟨unfoldedLines dataFields, Lines.join data⟩]
        epilogue := [] } := by
  have hNil := not_nil_mem_blockLines hFields
  have hFirst : ∀ line ∈ partLines bodyFields body, ¬(delimiter boundary).isPrefixOf line :=
    fun _ => Message.not_delimiter_of_mem_partLines hBodyFields hBody
  have hSecond : ∀ line ∈ partLines dataFields data, ¬(delimiter boundary).isPrefixOf line :=
    fun _ => Message.not_delimiter_of_mem_partLines hDataFields hData
  rw [ofText?, hText, headerLines_append hNil, contentLines_append hNil, unfold_blockLines hFields,
    hType]
  simp only [Option.bind_eq_bind, Option.bind_some, hBoundary, Message.divide?_parts hFirst hSecond,
    List.map_cons, List.map_nil, Part.ofLines_partLines hBodyFields,
    Part.ofLines_partLines hDataFields]

end Multipart

end Reading

namespace Message

/-- The part of the body is shown with the message. -/
theorem not_isAttachment_body (body content : List Char) :
    ¬Part.isAttachment ⟨unfoldedLines (bodyFields body), content⟩ := by
  rw [bodyFields]
  cases isAscii body <;> simp [Part.isAttachment, unfoldedLines, value?, field?]

/-- The part of the attachment is to be saved. -/
theorem isAttachment_attachment (attachment : Attachment) (content : List Char) :
    Part.isAttachment ⟨unfoldedLines (attachmentFields attachment), content⟩ := by
  simp [Part.isAttachment, unfoldedLines, attachmentFields, value?, field?]

/-- The part of the attachment carries its data. -/
theorem base64?_attachment (attachment : Attachment) :
    Part.base64? ⟨unfoldedLines (attachmentFields attachment),
      Base64.encodeLines attachment.data⟩ = some attachment.data := by
  have hEncoding := value?_attachmentFields attachment
  rw [Part.base64?, if_pos hEncoding]
  exact (Part.decode?_base64 hEncoding).trans (Base64.decode?_filter_encodeLines _)

/-- A reader finds exactly one attachment in a rendered message, and in it the bytes that were
attached. -/
theorem attached?_of_render (message : Message) (boundary : String)
    (hType : ∀ c ∈ message.attachment.contentType.name.toList, isPlain c)
    (hBoundary : ∀ c ∈ boundary.toList, isPlain c ∧ c ≠ '"' ∧ c ≠ '\\')
    (hBody : ∀ line ∈ Lines.split message.body.toList,
      ¬(delimiter boundary.toList).isPrefixOf line) :
    (Multipart.ofText? (message.render boundary).toList).bind Multipart.attached? =
      some message.attachment.data := by
  have hPlain : ∀ c ∈ boundary.toList, isPlain c := fun c hc => (hBoundary c hc).1
  have hSplit : Lines.split (message.render boundary).toList = message.lines boundary := by
    rw [render, String.toList_ofList, split_chars hType hPlain]
  obtain ⟨contentType, hValue, hGiven⟩ := exists_value?_fields message hBoundary
  have hRead := Multipart.ofText?_of_lines (message.writable_fields hPlain)
    (writable_bodyFields message.body.toList) (writable_attachmentFields hType) hValue hGiven
    (fun _ => not_delimiter_of_mem_bodyLines fun _ => hBody)
    (fun _ hLine => not_delimiter_of_mem_base64 hLine _) hSplit
  rw [hRead, Option.bind_some, Multipart.attached?, Multipart.attachments,
    List.filter_cons_of_neg (not_isAttachment_body _ _),
    List.filter_cons_of_pos (isAttachment_attachment _ _), List.filter_nil]
  exact base64?_attachment message.attachment

end Message

namespace Envelope

/-- What the content of a file carries as the envelope of a message with exactly one attachment. -/
def carried? (content : List UInt8) : Option (List UInt8) := do
  let envelope ← Table.Documents.readContent? Envelope.reader content
  let message ← Multipart.ofText? envelope.data.toList
  message.attached?

/-- An envelope is read back from the bytes of its text. -/
theorem readContent?_text (envelope : Envelope) :
    Table.Documents.readContent? Envelope.reader (Utf8.encode envelope.text.toList) =
      some envelope := by
  rw [Table.Documents.readContent?, Utf8.decode?_encode, Option.bind_some, String.ofList_toList,
    Json.Reader.run?, ofText?_text]
  exact reader_source 126 envelope

theorem encode_text_ne_nil (envelope : Envelope) : Utf8.encode envelope.text.toList ≠ [] := by
  rw [toList_text]
  exact List.cons_ne_nil _ _

/-- The envelope of a message carries what is attached to the message. -/
theorem carried?_ofMessage (message : Message) (boundary : String)
    (hType : ∀ c ∈ message.attachment.contentType.name.toList, isPlain c)
    (hBoundary : ∀ c ∈ boundary.toList, isPlain c ∧ c ≠ '"' ∧ c ≠ '\\')
    (hBody : ∀ line ∈ Lines.split message.body.toList,
      ¬(delimiter boundary.toList).isPrefixOf line) :
    carried? (Utf8.encode (ofMessage message boundary).text.toList) =
      some message.attachment.data := by
  have hRead := Message.attached?_of_render message boundary hType hBoundary hBody
  simp only [carried?, readContent?_text, ofMessage, Option.bind_eq_bind, Option.bind_some, hRead]

end Envelope

/-! Messages about files. -/

/-- A boundary is made of characters that need no quoting in a header. -/
theorem isPlain_of_mem_boundaryOf (uuid : Uuid) :
    ∀ c ∈ (boundaryOf uuid).toList, isPlain c ∧ c ≠ '"' ∧ c ≠ '\\' := by
  have hDigit : ∀ digit, isPlain (Uuid.digitChar digit) ∧ Uuid.digitChar digit ≠ '"' ∧
      Uuid.digitChar digit ≠ '\\' := by decide
  have hSign (n : Nat) : ∀ c ∈ List.replicate n '=', isPlain c ∧ c ≠ '"' ∧ c ≠ '\\' := by
    intro c hc
    rw [List.eq_of_mem_replicate hc]
    decide
  have hStart : "===============".toList = List.replicate 15 '=' := by decide
  have hEnd : "==".toList = List.replicate 2 '=' := by decide
  simp only [boundaryOf, Uuid.hex, String.toList_append, String.toList_ofList, hStart, hEnd,
    List.forall_mem_append, List.forall_mem_map]
  exact ⟨⟨hSign 15, fun digit _ => hDigit digit⟩, hSign 2⟩

/-- What begins with a character that does not occur before some point stands after it. -/
theorem isInfix_of_isInfix_append {c : Char} {text before rest : List Char} (hBefore : c ∉ before)
    (h : c :: text <:+: before ++ rest) : c :: text <:+: rest := by
  induction before with
  | nil => exact h
  | cons first before ih =>
      obtain ⟨hFirst, hBefore⟩ := List.ne_and_not_mem_of_not_mem_cons hBefore
      rw [List.cons_append, List.infix_cons_iff] at h
      rcases h with h | h
      · exact absurd (List.cons_prefix_cons.mp h).1 hFirst
      · exact ih hBefore h

namespace Notification

variable {fs : FileSystem} {path : Path}

theorem isPlain_of_mem_contentType (notification : Notification) :
    ∀ c ∈ notification.contentType.name.toList, isPlain c := by
  cases notification <;> exact List.all_eq_true.mp (by decide)

/-- No line of the text that names a file is taken for a delimiter, unless the boundary occurs in
the path. -/
theorem not_delimiter_of_mem_body (notification : Notification) {boundary : List Char}
    (h : ¬boundary <:+: path.display.toList) :
    ∀ line ∈ Lines.split (notification.body path).toList,
      ¬(delimiter boundary).isPrefixOf line := by
  intro line hLine hPrefix
  have hDelimiter : delimiter boundary <:+: (notification.body path).toList :=
    (List.isPrefixOf_iff_prefix.mp hPrefix).isInfix.trans (Lines.isInfix_of_mem_split hLine)
  cases notification with
  | diagram =>
      have hMinus : '-' ∈ "Diagram update".toList := hDelimiter.subset (by simp [delimiter])
      exact absurd hMinus (by decide)
  | pdf =>
      rw [body, String.toList_append] at hDelimiter
      have hSuffix : boundary <:+ delimiter boundary := ⟨['-', '-'], rfl⟩
      exact h (hSuffix.isInfix.trans (isInfix_of_isInfix_append (by decide) hDelimiter))

/-- A message about a file that can be read carries its content. -/
theorem exists_compose (notification : Notification) (sender recipient : String)
    {data : List UInt8} (h : fs.fileContent path = .ok data) :
    ∃ message, notification.compose fs path sender recipient = .ok message ∧
      message.body = notification.body path ∧
      message.attachment.contentType = notification.contentType ∧
      message.attachment.data = data := by
  rw [compose, Attachment.ofFile, h]
  exact ⟨_, rfl, rfl, rfl, rfl⟩

/-- A document that cannot be read makes no message. -/
theorem compose_of_error (notification : Notification) (sender recipient : String) {fault : Fault}
    (h : fs.fileContent path = .error fault) :
    notification.compose fs path sender recipient = .error (.readAttachment path fault) := by
  rw [compose, Attachment.ofFile, h]
  rfl

/-- The envelope of a message about a file carries the content of the file. -/
theorem exists_compose_carried (notification : Notification) (sender recipient : String)
    (uuid : Uuid) {data : List UInt8} (h : fs.fileContent path = .ok data)
    (hBoundary : ¬(boundaryOf uuid).toList <:+: path.display.toList) :
    ∃ message, notification.compose fs path sender recipient = .ok message ∧
      Envelope.carried?
        (Utf8.encode (Envelope.ofMessage message (boundaryOf uuid)).text.toList) = some data := by
  obtain ⟨message, hCompose, hBody, hType, rfl⟩ :=
    notification.exists_compose sender recipient h
  refine ⟨message, hCompose, Envelope.carried?_ofMessage message _ ?_
    (isPlain_of_mem_boundaryOf uuid) ?_⟩
  · rw [hType]
    exact notification.isPlain_of_mem_contentType
  · rw [hBody]
    exact notification.not_delimiter_of_mem_body hBoundary

end Notification

end ExportKit.Mail
