import ExportKit.Json.Printer
import ExportKit.Json.Reader
import ExportKit.Mail.Message

/-!
The JSON document in which a raw message is handed over for sending.
-/
namespace ExportKit.Mail

/-- A raw message as the only field of a JSON document. -/
structure Envelope where
  data : String
  deriving DecidableEq

namespace Envelope

/-- The envelope of a message whose parts are separated by `boundary`. -/
def ofMessage (message : Message) (boundary : String) : Envelope := ⟨message.render boundary⟩

def toJson (envelope : Envelope) : Json := .object [("Data", .string envelope.data)]

def text (envelope : Envelope) : String := envelope.toJson.compact

def reader : Json.Reader Envelope := fun depth source => do
  match ← Json.Reader.record ["Data"] depth source with
  | (depth, [data]) => some { data := ← Json.Reader.required .string depth data }
  | _ => none

end Envelope

end ExportKit.Mail
