import ExportKit.Mail.Address
import ExportKit.Mail.Filename
import ExportKit.Text.Uuid

/-!
Email messages with a plain-text body and one attachment, and their text as a multipart document
whose two parts a boundary separates.
-/
namespace ExportKit.Mail

/-- The type of an attachment. -/
inductive ContentType where
  | pdf
  | octetStream
  | other (name : String)
  deriving DecidableEq, Repr

/-- The media type as it stands in a header. -/
def ContentType.name : ContentType → String
  | .pdf => "application/pdf"
  | .octetStream => "application/octet-stream"
  | .other name => name

/-- A file that is sent along with a message, under the name that the recipient sees. -/
structure Attachment where
  filename : String
  contentType : ContentType
  data : List UInt8
  deriving DecidableEq

/-- A message with exactly one attachment. -/
structure Message where
  sender : String
  recipient : String
  subject : String
  body : String
  attachment : Attachment
  deriving DecidableEq

namespace Message

/-- A line of text, from a name, a value and the line feed that ends it. -/
def line (name : String) (value : List Char) : List Char := name.toList ++ value ++ ['\n']

def headers (message : Message) (boundary : String) : List Char :=
  line "Subject: " (Header.encode message.subject.toList) ++
  line "From: " (Address.encode message.sender.toList) ++
  line "To: " (Address.encode message.recipient.toList) ++
  line "MIME-Version: 1.0" [] ++
  line "Content-Type: multipart/mixed; boundary=\"" (boundary.toList ++ ['"'])

/-- A text that ends in a line feed, which is added if it is missing. -/
def endLine (text : List Char) : List Char :=
  if text.getLast? = some '\n' then text else text ++ ['\n']

/-- The part that holds the body: as it stands if it is ASCII, and in base64 otherwise. -/
def bodyPart (body : List Char) : List Char :=
  line "Content-Type: text/plain; charset=\"utf-8\"" [] ++
  if body.all fun c => c.toNat < 128 then
    line "Content-Transfer-Encoding: 7bit" [] ++ line "" [] ++ endLine body
  else
    line "Content-Transfer-Encoding: base64" [] ++ line "" [] ++
      Base64.encodeLines (Utf8.encode body)

def attachmentPart (attachment : Attachment) : List Char :=
  line "Content-Type: " attachment.contentType.name.toList ++
  line "Content-Disposition: attachment; " (Filename.parameter attachment.filename.toList) ++
  line "Content-Transfer-Encoding: base64" [] ++ line "" [] ++
  Base64.encodeLines attachment.data

/-- The characters of a message whose parts are separated by `boundary`. -/
def chars (message : Message) (boundary : String) : List Char :=
  message.headers boundary ++ line "" [] ++
  line "--" boundary.toList ++ bodyPart message.body.toList ++ line "" [] ++
  line "--" boundary.toList ++ attachmentPart message.attachment ++ line "" [] ++
  line "--" (boundary.toList ++ "--".toList)

/-- The text of a message whose parts are separated by `boundary`. -/
def render (message : Message) (boundary : String) : String :=
  String.ofList (message.chars boundary)

end Message

/-- A boundary that no line of base64 text equals, made distinct by an identifier. -/
def boundaryOf (uuid : Uuid) : String := "===============" ++ uuid.hex ++ "=="

end ExportKit.Mail
