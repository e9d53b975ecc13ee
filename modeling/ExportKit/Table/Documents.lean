import ExportKit.Table.ManifestJson
import ExportKit.Table.MetadataJson

/-!
The documents that are generated for a table, and the names of the files that hold them.
-/
namespace ExportKit.Table

/-- The documents of a table: its metadata, the manifest of its snapshot and the manifest list. -/
structure Documents where
  metadata : Metadata
  manifest : Manifest
  manifestFileName : String
  manifestList : ManifestList
  manifestListFileName : String

namespace Documents

/-- The documents of a table with one snapshot that adds some files. The files lie in `warehouse`,
whose absolute path is `location`. -/
def ofFiles (kind : Kind) (files : List DataFile) (warehouse location : Path)
    (width : BucketWidth) (stamp : Stamp) : Documents where
  metadata :=
    .ofFiles kind (Metadata.tableLocation location kind) (.heightBucket kind.heightFieldId width)
      files stamp
  manifest := .ofFiles files warehouse width
  manifestFileName := stamp.manifestFileName
  manifestList := .ofFiles stamp files
  manifestListFileName := stamp.manifestListFileName

def directoryName : String := "metadata"

def versionFileName : String := "v1.metadata.json"

/-- The link to the file of the metadata. -/
def pointerFileName : String := "metadata.json"

/-- The file that names the current version. -/
def versionHintFileName : String := "version-hint.text"

def versionHint : String := "1"

/-- A document as a file holds it, with a final line feed. -/
def fileText (document : Json) : String := document.pretty ++ "\n"

end Documents

end ExportKit.Table
