import ExportKit.FileSystem.Access
import ExportKit.Mail.Envelope

/-!
Messages about files: a diagram, or a document in PDF, is sent as the attachment of a message that
says what it is.
-/
namespace ExportKit.Mail

/-- Why a message cannot be composed or handed over. -/
inductive Failure where
  | readAttachment (path : Path) (fault : Fault)
  | write (path : Path) (fault : Fault)
  deriving DecidableEq

def Failure.message : Failure → String
  | .readAttachment path fault =>
    "failed to read attachment " ++ path.display ++ ": " ++ fault.message
  | .write path fault => "failed to write " ++ path.display ++ ": " ++ fault.message

namespace Attachment

/-- The name under which a file is sent: the last component of its path. -/
def nameOf (path : Path) : String :=
  match path.fileName? with
  | some name => String.ofList (Utf8.decodeLossy name)
  | none => path.display

def ofFile (fs : FileSystem) (path : Path) (contentType : ContentType) :
    Except Failure Attachment :=
  match fs.fileContent path with
  | .ok data => .ok { filename := nameOf path, contentType, data }
  | .error fault => .error (.readAttachment path fault)

end Attachment

/-- What a message is about. -/
inductive Notification where
  | diagram
  | pdf
  deriving DecidableEq

namespace Notification

def contentType : Notification → ContentType
  | .diagram => .octetStream
  | .pdf => .pdf

/-- The subject of the message. A document is named by its path. -/
def subject (notification : Notification) (path : Path) : String :=
  match notification with
  | .diagram => "A test diagram"
  | .pdf => "PDF: " ++ path.display

def body (notification : Notification) (path : Path) : String :=
  match notification with
  | .diagram => "Diagram update"
  | .pdf => "PDF: " ++ path.display

def compose (notification : Notification) (fs : FileSystem) (path : Path)
    (sender recipient : String) : Except Failure Message := do
  let attachment ← Attachment.ofFile fs path notification.contentType
  .ok
    { sender
      recipient
      subject := notification.subject path
      body := notification.body path
      attachment }

end Notification

namespace Envelope

/-- Writes an envelope into a file, replacing one that is there. -/
def writeTo (envelope : Envelope) (fs : FileSystem) (path : Path) : Except Failure FileSystem :=
  match fs.putFile path (Utf8.encode envelope.text.toList) with
  | .ok changed => .ok changed
  | .error fault => .error (.write path fault)

end Envelope

end ExportKit.Mail
