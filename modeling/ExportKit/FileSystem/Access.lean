import ExportKit.FileSystem.Walk

/-!
What programs do with a file system: looking at entries, reading and writing files, listing,
creating and removing.
-/
namespace ExportKit.FileSystem

/-- What a path leads to, links followed. -/
def status (fs : FileSystem) (path : Path) : Except Fault Node := do
  match (← fs.resolve .follow path).node? with
  | some node => .ok node
  | none => .error .notFound

/-- The entry that a path names, which may be a link. -/
def linkStatus (fs : FileSystem) (path : Path) : Except Fault Node := do
  match (← fs.resolve .keep path).node? with
  | some node => .ok node
  | none => .error .notFound

def isDir (fs : FileSystem) (path : Path) : Bool :=
  match fs.status path with
  | .ok node => node.isDir
  | .error _ => false

/-- What is read from the file or device that a path leads to. -/
def fileContent (fs : FileSystem) (path : Path) : Except Fault (List UInt8) := do
  match ← fs.status path with
  | .file content => .ok content
  | .device device => device.content
  | _ => .error .isDirectory

/-- The names in the directory that a path leads to, in byte order. -/
def listDir (fs : FileSystem) (path : Path) : Except Fault (List Name) := do
  let node ← fs.status path
  if node.isDir then .ok node.names else .error .notDirectory

/-- Writes a file, replacing the content of one that the path leads to, or writes to a device. A
write is one step: it is done as a whole, or it is refused because of the names on the path, the kinds
of the entries there and the lengths of names and path. Only devices have no space. -/
def putFile (fs : FileSystem) (path : Path) (content : List UInt8) :
    Except Fault FileSystem := do
  let spot ← fs.resolve .create path
  match spot.node? with
  | some (.dir _) => .error .isDirectory
  | some (.device device) => device.put fs content
  | _ => .ok (fs.put spot.location (.file content))

/-- Creates a directory in one that exists. -/
def makeDir (fs : FileSystem) (path : Path) : Except Fault FileSystem := do
  let spot ← fs.resolve .name path
  match spot.node? with
  | some _ => .error .alreadyExists
  | none => .ok (fs.put spot.location (.dir []))

/-- Creates the first of some directories, each of which lies in the next one, and as many of
those after it as are needed. -/
def makeDirs (fs : FileSystem) : List Path → FileSystem × Except Fault Unit
  | [] => (fs, .ok ())
  | path :: parents =>
    match fs.makeDir path with
    | .ok fs => (fs, .ok ())
    | .error .notFound =>
      match makeDirs fs parents with
      | (fs, .ok ()) =>
        match fs.makeDir path with
        | .ok fs => (fs, .ok ())
        | .error fault => (fs, if fs.isDir path then .ok () else .error fault)
      | (fs, .error fault) => (fs, .error fault)
    | .error fault => (fs, if fs.isDir path then .ok () else .error fault)

/-- A path and the directories that it lies in, the nearest first. -/
def chain (path : Path) : List Path :=
  let components := path.components
  path :: (List.range (components.length - 1)).map fun n =>
    Path.ofComponents (components.take (components.length - 1 - n))

/-- Creates a directory together with the directories that it lies in. Those that were created
stay also if a later one cannot be. -/
def makeDirAll (fs : FileSystem) (path : Path) : FileSystem × Except Fault Unit :=
  if path.bytes = [] then (fs, .ok ()) else fs.makeDirs (chain path)

def makeLink (fs : FileSystem) (target path : Path) : Except Fault FileSystem := do
  if target.bytes.contains 0 then .error .zeroByte
  else if target.bytes = [] then .error .notFound
  else if maxPath < target.bytes.length then .error .nameTooLong
  let spot ← fs.resolve .name path
  match spot.node? with
  | some _ => .error .alreadyExists
  | none => if spot.slash then .error .notFound else .ok (fs.put spot.location (.link target))

def removeFile (fs : FileSystem) (path : Path) : Except Fault FileSystem := do
  let spot ← fs.resolve .name path
  match spot.node? with
  | none => .error .notFound
  | some (.dir _) => .error .isDirectory
  | some _ => if spot.slash then .error .notDirectory else .ok (fs.erase spot.location)

/-- Removes an empty directory. The path has to name it within the directory that it lies in. -/
def removeDir (fs : FileSystem) (path : Path) : Except Fault FileSystem := do
  let spot ← fs.resolve .name path
  match path.segments.getLast?, spot.node? with
  | none, _ => .error .busy
  | some name, node? =>
    if name = [Path.dot] then .error .invalidArgument
    else if name = [Path.dot, Path.dot] then .error .notEmpty
    else
      match node? with
      | none => .error .notFound
      | some (.dir entries) =>
        if entries = [] then .ok (fs.eraseDir spot.location) else .error .notEmpty
      | some _ => .error .notDirectory

/-- Removes a file, a link or a device, or a directory with all that it holds. What a directory
holds is removed first, and stays so if then the directory itself cannot be. A path that leads
nowhere after that is no failure. -/
def removeAll (fs : FileSystem) (path : Path) : FileSystem × Except Fault Unit :=
  let attempt (fs : FileSystem) (result : Except Fault FileSystem) :
      FileSystem × Except Fault Unit :=
    match result with
    | .ok changed => (changed, .ok ())
    | .error fault => (fs, .error fault)
  match fs.resolve .keep path with
  | .error fault => (fs, .error fault)
  | .ok spot =>
    match spot.node? with
    | none => (fs, .error .notFound)
    | some (.dir _) =>
      let cleared := fs.clear spot.location
      match cleared.removeDir path with
      | .error .notFound => (cleared, .ok ())
      | result => attempt cleared result
    | some _ => attempt fs (fs.removeFile path)

end ExportKit.FileSystem
