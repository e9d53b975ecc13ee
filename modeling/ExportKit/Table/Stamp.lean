import ExportKit.Text.Digits
import ExportKit.Text.Uuid

/-!
What distinguishes one run of the generation from another. All else in the documents of a table is
determined by the warehouse and the configuration.
-/
namespace ExportKit.Table

/-- The time of a run and the identifiers that it gives out. -/
structure Stamp where
  /-- Milliseconds since the epoch. -/
  timestampMs : Int64
  tableUuid : Uuid
  manifestUuid : Uuid
  deriving DecidableEq

namespace Stamp

/-- The id of the snapshot of the run, which is its time. -/
def snapshotId (stamp : Stamp) : Int64 := stamp.timestampMs

def manifestFileName (stamp : Stamp) : String :=
  "manifest-" ++ stamp.manifestUuid.text ++ ".json"

def manifestListFileName (stamp : Stamp) : String :=
  "snap-" ++ String.ofList (Digits.writeInt stamp.snapshotId.toInt) ++ "-1-manifest-list.json"

end Stamp

end ExportKit.Table
