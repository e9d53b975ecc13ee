import ExportKit.Mail.Notification
import ExportKit.Proofs.FileSystem.Reach
import ExportKit.Proofs.Text.Utf8

/-!
What a message tells about the path of its attachment. Only a path that ends in a name leads to
something that can be read, so the name is all that is sent of the path, and two files of one name
and one content make the same message about a diagram. Main statement: `conceals_directory`.
-/
namespace ExportKit

namespace FileSystem

variable {fs : FileSystem} {path : Path}

theorem exists_status_of_fileContent {data : List UInt8} (h : fs.fileContent path = .ok data) :
    ∃ node, fs.status path = .ok node ∧ ¬node.isDir := by
  obtain ⟨node, hStatus, hContent⟩ := bind_eq_ok.mp h
  refine ⟨node, hStatus, fun hDir => ?_⟩
  cases node with
  | dir entries => cases hContent
  | file | link | device => cases hDir

/-- A path that can be read ends in a name. -/
theorem exists_name_of_fileContent {data : List UInt8} (h : fs.fileContent path = .ok data) :
    ∃ name : Name, path.segments.getLast? = some name ∧ name.IsProper ∧
      path.fileName? = some name := by
  obtain ⟨node, hStatus, hDir⟩ := exists_status_of_fileContent h
  obtain ⟨name, hLast, hName⟩ := exists_last_name hStatus hDir
  exact ⟨name, hLast, hName, Path.fileName?_of_getLast? hLast hName⟩

end FileSystem

namespace Mail

/-- The name of an attachment is the last component of its path. -/
theorem Attachment.nameOf_of_fileName? {path : Path} {name : Name}
    (h : path.fileName? = some name) :
    nameOf path = String.ofList (Utf8.decodeLossy name) := by
  rw [nameOf, h]

/-- An attachment carries the content of the file, under the name of the file. -/
theorem Attachment.ofFile_eq_ok {fs : FileSystem} {path : Path} {contentType : ContentType}
    {attachment : Attachment} (h : ofFile fs path contentType = .ok attachment) :
    fs.fileContent path = .ok attachment.data ∧ attachment.filename = nameOf path := by
  rw [ofFile] at h
  cases hContent : fs.fileContent path with
  | error fault => simp [hContent] at h
  | ok data =>
      rw [hContent] at h
      cases h
      exact ⟨rfl, rfl⟩

/-- A name without a slash is shown without one. -/
theorem not_mem_decodeLossy {name : Name} (h : name.IsProper) : '/' ∉ Utf8.decodeLossy name :=
  fun hMem => h.not_mem_slash (Utf8.mem_of_mem_decodeLossy hMem (by decide))

/-- The message about a diagram is made of the content and the name of the file, and of nothing
else that the path or the file system holds. -/
theorem Notification.compose_diagram {fs : FileSystem} {path : Path} {name : Name}
    {data : List UInt8} (hContent : fs.fileContent path = .ok data)
    (hName : path.fileName? = some name) (sender recipient : String) :
    Notification.diagram.compose fs path sender recipient =
      .ok
        { sender
          recipient
          subject := "A test diagram"
          body := "Diagram update"
          attachment :=
            { filename := String.ofList (Utf8.decodeLossy name)
              contentType := .octetStream
              data } } := by
  rw [compose, Attachment.ofFile, hContent, Attachment.nameOf_of_fileName? hName]
  rfl

/-- A file is sent under the last name of its path, which shows no slash. Where two paths end in
one name and lead to one content, the messages about the diagrams have the same text, whatever else
the paths and the file systems hold. -/
theorem conceals_directory :
    (∀ (fs : FileSystem) (path : Path) (contentType : ContentType) (attachment : Attachment),
      Attachment.ofFile fs path contentType = .ok attachment →
        ∃ name : Name, path.segments.getLast? = some name ∧ path.fileName? = some name ∧
          attachment.filename = String.ofList (Utf8.decodeLossy name) ∧
          '/' ∉ attachment.filename.toList) ∧
    ∀ (fs fs' : FileSystem) (path path' : Path) (data : List UInt8)
      (sender recipient boundary : String),
      fs.fileContent path = .ok data → fs'.fileContent path' = .ok data →
      path.fileName? = path'.fileName? →
        ∃ text,
          (Notification.diagram.compose fs path sender recipient).map (·.render boundary) =
            .ok text ∧
          (Notification.diagram.compose fs' path' sender recipient).map (·.render boundary) =
            .ok text := by
  constructor
  · intro fs path contentType attachment hAttachment
    obtain ⟨hContent, hFilename⟩ := Attachment.ofFile_eq_ok hAttachment
    obtain ⟨name, hLast, hName, hFileName⟩ := FileSystem.exists_name_of_fileContent hContent
    rw [Attachment.nameOf_of_fileName? hFileName] at hFilename
    refine ⟨name, hLast, hFileName, hFilename, ?_⟩
    rw [hFilename, String.toList_ofList]
    exact not_mem_decodeLossy hName
  · intro fs fs' path path' data sender recipient boundary hContent hContent' hSame
    obtain ⟨name, -, -, hName⟩ := FileSystem.exists_name_of_fileContent hContent
    have hName' : path'.fileName? = some name := hSame.symm.trans hName
    rw [Notification.compose_diagram hContent hName,
      Notification.compose_diagram hContent' hName']
    exact ⟨_, rfl, rfl⟩

/-! A diagram by its path from the root, and from within its directory. -/

def sketch : List UInt8 := Utf8.encode "<svg/>".toList

def sketchTree (workingDir : Location) : FileSystem where
  rootEntries := [(Name.ofString "home", .dir [(Name.ofString "d.svg", .file sketch)])]
  workingDir := .existing workingDir
  output := []

theorem fileContent_from_root :
    (sketchTree []).fileContent (.ofString "/home/./d.svg") = .ok sketch := by
  have hResolve : (sketchTree []).resolve .follow (.ofString "/home/./d.svg") =
      FileSystem.walk (sketchTree []).root .follow FileSystem.maxLinks []
        [Name.ofString "home", [Path.dot], Name.ofString "d.svg"] false := rfl
  rw [FileSystem.fileContent, FileSystem.status, hResolve, FileSystem.walk]
  change (FileSystem.walk _ _ _ _ _ _ >>= _) >>= _ = _
  rw [FileSystem.walk]
  change (FileSystem.walk _ _ _ _ _ _ >>= _) >>= _ = _
  rw [FileSystem.walk]
  rfl

theorem fileContent_from_home :
    (sketchTree [Name.ofString "home"]).fileContent (.ofString "d.svg") = .ok sketch := by
  have hResolve : (sketchTree [Name.ofString "home"]).resolve .follow (.ofString "d.svg") =
      FileSystem.walk (sketchTree [Name.ofString "home"]).root .follow FileSystem.maxLinks
        [(Name.ofString "home", .dir [(Name.ofString "d.svg", .file sketch)])]
        [Name.ofString "d.svg"] false := rfl
  rw [FileSystem.fileContent, FileSystem.status, hResolve, FileSystem.walk]
  rfl

/-- The attachment is the same from the root and from the home directory, whose name it does not
show. -/
theorem conceals_home :
    Attachment.ofFile (sketchTree []) (.ofString "/home/./d.svg") .octetStream =
        .ok ⟨"d.svg", .octetStream, sketch⟩ ∧
      '/' ∉ "d.svg".toList ∧
      (sketchTree []).fileContent (.ofString "/home/./d.svg") = .ok sketch ∧
      (sketchTree [Name.ofString "home"]).fileContent (.ofString "d.svg") = .ok sketch ∧
      (Path.ofString "/home/./d.svg").fileName? = (Path.ofString "d.svg").fileName? ∧
      ∃ text,
        (Notification.diagram.compose (sketchTree []) (.ofString "/home/./d.svg") "a" "b").map
            (·.render "x") = .ok text ∧
        (Notification.diagram.compose (sketchTree [Name.ofString "home"]) (.ofString "d.svg")
            "a" "b").map (·.render "x") = .ok text := by
  have hAttachment : Attachment.ofFile (sketchTree []) (.ofString "/home/./d.svg") .octetStream =
      .ok ⟨"d.svg", .octetStream, sketch⟩ := by
    rw [Attachment.ofFile, fileContent_from_root]
    decide +kernel
  obtain ⟨_, -, -, -, hSlash⟩ := conceals_directory.1 _ _ _ _ hAttachment
  have hSame : (Path.ofString "/home/./d.svg").fileName? = (Path.ofString "d.svg").fileName? := by
    decide +kernel
  exact ⟨hAttachment, hSlash, fileContent_from_root, fileContent_from_home, hSame,
    conceals_directory.2 _ _ _ _ _ "a" "b" "x" fileContent_from_root fileContent_from_home hSame⟩

end Mail

end ExportKit
