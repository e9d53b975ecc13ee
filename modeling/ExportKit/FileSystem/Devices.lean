import ExportKit.FileSystem.Basic

/-!
The device files that stand at the same places in every file system. Programs reach them by their
paths or through links, such as a standard output that is given as the file to write to.
-/
namespace ExportKit

namespace Device

/-- The device files by their names in their directory. Those that never end when they are read
count as empty, as do the other ends of the standard input and of the error output. -/
def standard : List (String × Device) :=
  [("null", .null), ("zero", .null), ("full", .full), ("random", .null), ("urandom", .null),
    ("tty", .terminal), ("stdin", .null), ("stdout", .output), ("stderr", .null)]

/-- The device files by the numbers under which a program has opened them. -/
def opened : List (String × Device) := [("0", .null), ("1", .output), ("2", .null)]

def directory (devices : List (String × Device)) (others : List (Name × Node)) : Node :=
  .dir (devices.map (fun (name, device) => (Name.ofString name, .device device)) ++ others)

end Device

/-- The file system that holds only device files, with the root as working directory. -/
def FileSystem.bare : FileSystem where
  rootEntries :=
    [(Name.ofString "dev",
      Device.directory Device.standard [(Name.ofString "fd", Device.directory Device.opened [])])]
  workingDir := .existing []
  output := []

end ExportKit
