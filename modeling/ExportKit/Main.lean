import ExportKit.CommandLine.MailTool
import ExportKit.CommandLine.TableTool
import ExportKit.FileSystem.Devices
import ExportKit.Text.Instant
import Std.Time.DateTime.Timestamp

/-!
The programs. The first argument chooses between them: `mail` composes a message, and `tables`
generates metadata. The paths of a warehouse are read from standard input, one on each line, as
listing the warehouse with all that it holds prints them.

A program runs on a picture of those files that it may look at, and what it changed there is then
written. Where the picture has a link, a copy of the file that it leads to is written.
-/
namespace ExportKit.CommandLine

def argumentBytes (argument : String) : List UInt8 := Utf8.encode argument.toList

/-- The environment variables that parameters name, and those about colors. -/
def readEnvironment (parameters : List Parameter) : IO Environment := do
  let names := parameters.filterMap (·.envName) ++ [Environment.noColor, Environment.forceColor]
  let values ← names.mapM fun name => do
    return (← IO.getEnv name).map fun value => (name, argumentBytes value)
  return values.filterMap id

def newUuid : IO Uuid := do
  let bytes ← IO.getRandomBytes 32
  return .ofRandom (.ofFn fun i => Uuid.digitOfByte (bytes.get! i))

def now : IO Instant := do
  return ⟨(← Std.Time.Timestamp.now).toNanosecondsSinceUnixEpoch.val.toNat⟩

def newStamp : IO Table.Stamp := do
  return {
    timestampMs := Int64.ofNat (← now).milliseconds
    tableUuid := ← newUuid
    manifestUuid := ← newUuid }

def emptyPicture : IO FileSystem := do
  let workingDir := Path.ofString (toString (← IO.currentDir))
  return { (FileSystem.bare.makeDirAll workingDir).1 with
    workingDir := .existing workingDir.segments }

def typeOf? (path : Path) : IO (Option IO.FS.FileType) := do
  try
    return some (← (← IO.FS.realPath path.display).metadata).type
  catch _ => return none

def withFile (fs : FileSystem) (path : Path) (content : List UInt8) : FileSystem :=
  let fs := ((path.parent?.map fun parent => fs.makeDirAll parent).map (·.1)).getD fs
  (fs.putFile path content).toOption.getD fs

/-- A picture with what a path leads to, if anything. What is already there stays, and what is
neither a directory nor a file that can be read is left out. -/
def addToPicture (fs : FileSystem) (path : Path) : IO FileSystem := do
  if (fs.status path).isOk then return fs
  match ← typeOf? path with
  | some .dir => return (fs.makeDirAll path).1
  | some .file =>
    try
      return withFile fs path (← IO.FS.readBinFile path.display).toList
    catch _ => return fs
  | _ => return fs

/-- The entries below a directory, each directory before what it holds. -/
partial def entriesBelow (node : Node) (here : Location) : List (Location × Node) :=
  node.names.flatMap fun name =>
    match node.child? name with
    | some child => (here ++ [name], child) :: entriesBelow child (here ++ [name])
    | none => []

/-- Writes those entries of a picture that were not there before. -/
def writeChanges (before changed : FileSystem) : IO Unit := do
  for (location, node) in entriesBelow changed.root [] do
    let path := Path.ofComponents (.root :: location.map .name)
    if before.entryAt? location ≠ some node.entry then
      match node with
      | .dir _ => IO.FS.createDirAll path.display
      | .file content => IO.FS.writeBinFile path.display ⟨content.toArray⟩
      | .link _ =>
        match changed.fileContent path with
        | .ok content => IO.FS.writeBinFile path.display ⟨content.toArray⟩
        | .error _ => pure ()
      | .device _ => pure ()

/-- Ends a program: writes what it changed, and prints what it has to say. -/
def conclude (before : FileSystem) (result : FileSystem × Outcome) : IO UInt32 := do
  let (changed, outcome) := result
  let outcome ←
    try
      writeChanges before changed
      pure outcome
    catch error => pure (.failure .output (toString error) [])
  IO.print outcome.printed
  IO.eprint (outcome.errorText (← now).microText)
  return UInt32.ofNat outcome.exitCode.toNat

def mailPaths : MailTool.Job → List Path
  | .diagram file _ _ => [file]
  | .pdf file output _ _ => [file] ++ output.parent?.toList ++ [output]

def runMail (arguments : List String) : IO UInt32 := do
  let arguments := arguments.map argumentBytes
  let environment ←
    readEnvironment (MailTool.diagram.parameters ++ MailTool.pdf.parameters)
  let task? := (MailTool.task arguments environment).toOption
  let paths := (task?.map fun task => mailPaths task.job).getD []
  let before ← paths.foldlM addToPicture (← emptyPicture)
  let boundary := Mail.boundaryOf (← newUuid)
  conclude before (MailTool.execute arguments environment boundary before)

/-- The lines that are left to read. -/
partial def remainingLines (input : IO.FS.Stream) : IO (List String) := do
  let line ← input.getLine
  if line.isEmpty then return []
  return (line.dropEndWhile (· = '\n')).toString :: (← remainingLines input)

def tablePaths (job : TableTool.Job) : IO (List Path) := do
  return job.config.warehouse :: (← remainingLines (← IO.getStdin)).map Path.ofString

def runTables (arguments : List String) : IO UInt32 := do
  let arguments := arguments.map argumentBytes
  let environment ← readEnvironment TableTool.command.parameters
  let paths ←
    match TableTool.job arguments environment with
    | .ok job => tablePaths job
    | .error _ => pure []
  let before ← paths.foldlM addToPicture (← emptyPicture)
  let blocks ← newStamp
  let transactions ← newStamp
  let tags ← newStamp
  let stamps (kind : Table.Kind) : Table.Stamp :=
    match kind with
    | .blocks => blocks
    | .transactions => transactions
    | .tags => tags
  conclude before (TableTool.execute arguments environment stamps (← now).text before)

def runNamed (arguments : List String) : IO UInt32 := do
  match arguments with
  | "mail" :: rest => runMail rest
  | "tables" :: rest => runTables rest
  | _ =>
    IO.eprintln "usage: mail [arguments] or tables [arguments]"
    return 2

end ExportKit.CommandLine

def main (arguments : List String) : IO UInt32 := ExportKit.CommandLine.runNamed arguments
