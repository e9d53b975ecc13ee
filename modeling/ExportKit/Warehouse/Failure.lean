import ExportKit.FileSystem.Basic

/-!
Why a run over a warehouse, or one of its steps, fails.
-/
namespace ExportKit.Warehouse

/-- The cause of a failure. -/
inductive Failure where
  /-- The warehouse is not a directory. -/
  | warehouseNotFound (path : Path)
  /-- The operating system refused an operation on a path. -/
  | io (path : Path) (fault : Fault)
  /-- A data file has no readable footer. -/
  | unreadableFooter (path : Path)
  /-- A path in a document is not UTF-8. -/
  | pathNotText
  deriving DecidableEq

namespace Failure

def message : Failure → String
  | .warehouseNotFound path => "warehouse directory does not exist: " ++ path.display
  | .io path fault => "I/O error at " ++ path.display ++ ": " ++ fault.message
  | .unreadableFooter path => "failed to read Parquet footer of " ++ path.display
  | .pathNotText => "JSON serialization error: path contains invalid UTF-8 characters"

/-- The result of an operation on a path, with the path kept along with a refusal. -/
def ofOperation {α : Type} (path : Path) : Except Fault α → Except Failure α
  | .ok value => .ok value
  | .error fault => .error (.io path fault)

end Failure

end ExportKit.Warehouse
