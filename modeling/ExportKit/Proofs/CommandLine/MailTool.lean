import ExportKit.CommandLine.MailTool
import ExportKit.FileSystem.Devices
import ExportKit.Proofs.FileSystem.ReadBack
import ExportKit.Proofs.Mail.Delivery

/-!
How the program that composes messages ends. Its exit code tells whether the document could be read
and the envelope written, and only a run that succeeds changes a file. Main statement:
`delivers_of_execute`.
-/
namespace ExportKit.CommandLine.MailTool

open FileSystem
open Mail (Envelope Failure Message Notification boundaryOf)

variable {fs : FileSystem} {arguments : List (List UInt8)} {environment : Environment}
  {boundary sender recipient : String} {file output : Path} {log : LogSettings}

/-- What a run that is to put the document at `file` into an envelope at `output` leaves behind. The
file system is left without what went to the standard output, which is part of the outcome. -/
structure Delivers (fs : FileSystem) (file output : Path) (changed : FileSystem)
    (outcome : Outcome) : Prop where
  /-- There is always an answer. -/
  not_internal : outcome.exitCode.toNat ≠ 99
  /-- A document that cannot be read leaves everything as it was. -/
  unreadable : ∀ fault, fs.fileContent file = .error fault →
    outcome.exitCode.toNat = 11 ∧ changed = { fs with output := [] }
  /-- So does an output that cannot be written. -/
  unwritable : ∀ data, fs.fileContent file = .ok data → ¬fs.canWrite output →
    outcome.exitCode.toNat = 13 ∧ changed = { fs with output := [] }
  /-- A device takes the envelope, and no file changes. -/
  taken : ∀ data, fs.fileContent file = .ok data → fs.canWrite output →
    fs.leadsToDevice output →
    outcome.exitCode.toNat = 0 ∧ changed = { fs with output := [] }
  /-- Otherwise the only file that changes is the one that the output path leads to, and that is
  the envelope of a message whose only attachment is the document as it was before. -/
  written : ∀ data, fs.fileContent file = .ok data → fs.canWrite output →
    ¬fs.leadsToDevice output →
    outcome.exitCode.toNat = 0 ∧ ∃ spot content, fs.resolve .create output = .ok spot ∧
      Alters spot.location fs changed ∧
      changed.entryAt? spot.location = some (.file content) ∧
      changed.fileContent output = .ok content ∧ Envelope.carried? content = some data

/-- A run does its job, and the rest is a matter of the log and the standard output. -/
theorem execute_of_task (boundary : String) (fs : FileSystem) {task' : Task}
    (h : task arguments environment = .ok task') :
    (execute arguments environment boundary fs).1 =
        { (run task'.job boundary fs).1 with output := [] } ∧
      (execute arguments environment boundary fs).2.exitCode =
        (run task'.job boundary fs).2.exitCode := by
  rw [execute, h]
  exact ⟨rfl, rfl⟩

/-- No failure of the program is an internal one. -/
theorem exitCode_run_ne_internal (job : Job) : (run job boundary fs).2.exitCode ≠ .internal := by
  have hFailed (failure : Failure) (events : List Event) :
      (failed failure events).exitCode ≠ .internal := by
    cases failure <;> simp [failed, exitCodeOf, Outcome.failure]
  cases job with
  | diagram file sender recipient =>
      rw [run]
      split
      · simp [Outcome.success]
      · exact hFailed _ _
  | pdf file output sender recipient =>
      rw [run]
      split
      · simp only
        split
        · simp [Outcome.success]
        · exact hFailed _ _
      · exact hFailed _ _

theorem ExitCode.toNat_ne_of_ne_internal {code : ExitCode} (h : code ≠ .internal) :
    code.toNat ≠ 99 := by
  cases code with
  | internal => exact absurd rfl h
  | clean | usage | configuration | input | output => decide

/-! Jobs for documents in PDF. -/

/-- A document that cannot be read ends the run before anything is written. -/
theorem run_pdf_of_unreadable {fault : Fault} (h : fs.fileContent file = .error fault) :
    run (.pdf file output sender recipient) boundary fs =
      (fs, failed (.readAttachment file fault) []) := by
  rw [run, Notification.pdf.compose_of_error sender recipient h]

/-- A file that cannot be written ends the run with the file system as it was. -/
theorem run_pdf_of_unwritable {message : Message} {fault : Fault}
    (hCompose : Notification.pdf.compose fs file sender recipient = .ok message)
    (hPut : fs.putFile output
      (Utf8.encode (Envelope.ofMessage message boundary).text.toList) = .error fault) :
    run (.pdf file output sender recipient) boundary fs =
      (fs, failed (.write output fault) (composed "PDF" file message)) := by
  rw [run, hCompose]
  simp only [Envelope.writeTo, hPut]

/-- Where the document is read and the file is written, the run succeeds. -/
theorem run_pdf_of_written {message : Message} {changed : FileSystem}
    (hCompose : Notification.pdf.compose fs file sender recipient = .ok message)
    (hPut : fs.putFile output
      (Utf8.encode (Envelope.ofMessage message boundary).text.toList) = .ok changed) :
    run (.pdf file output sender recipient) boundary fs =
      (changed, .success "" (composed "PDF" file message ++ [wrote output])) := by
  rw [run, hCompose]
  simp only [Envelope.writeTo, hPut]

/-- The exit code of a run that accepts its arguments tells what became of the document, whatever
they are and whatever the file system holds. It is assumed that the boundary does not occur in the
text of the path to the document. -/
theorem delivers_of_execute (fs : FileSystem) (uuid : Uuid)
    (hTask : task arguments environment = .ok ⟨.pdf file output sender recipient, log⟩)
    (hBoundary : ¬(boundaryOf uuid).toList <:+: file.display.toList) :
    Delivers fs file output (execute arguments environment (boundaryOf uuid) fs).1
      (execute arguments environment (boundaryOf uuid) fs).2 := by
  obtain ⟨hChanged, hCode⟩ := execute_of_task (boundaryOf uuid) fs hTask
  rw [hChanged]
  constructor
  case not_internal =>
    rw [hCode]
    exact ExitCode.toNat_ne_of_ne_internal (exitCode_run_ne_internal _)
  case unreadable =>
    intro fault hFault
    rw [hCode, run_pdf_of_unreadable hFault]
    exact ⟨rfl, rfl⟩
  all_goals
    intro data hData hCanWrite
    obtain ⟨message, hCompose, hCarried⟩ :=
      Notification.pdf.exists_compose_carried sender recipient uuid hData hBoundary
    have hContent := Envelope.encode_text_ne_nil (Envelope.ofMessage message (boundaryOf uuid))
  case unwritable =>
    obtain ⟨fault, hPut⟩ := exists_fault hContent hCanWrite
    rw [hCode, run_pdf_of_unwritable hCompose hPut]
    exact ⟨rfl, rfl⟩
  case taken =>
    intro hDevice
    obtain ⟨changed, hPut⟩ := exists_putFile hContent hCanWrite
    obtain ⟨hEntries, hWorkingDir⟩ := eq_of_putFile_device hPut hDevice
    rw [hCode, run_pdf_of_written hCompose hPut]
    refine ⟨rfl, ?_⟩
    simp only [hEntries, hWorkingDir]
  case written =>
    intro hDevice
    obtain ⟨changed, hPut⟩ := exists_putFile hContent hCanWrite
    obtain ⟨spot, hResolve, hAlters, hFile, hRead⟩ := putFile_eq_ok_of_not_device hPut hDevice
    rw [hCode, run_pdf_of_written hCompose hPut]
    refine ⟨rfl, spot, _, hResolve, ?_, hFile, hRead, hCarried⟩
    exact ⟨hAlters.entry, hAlters.before, hAlters.after, hAlters.workingDir⟩

/-- Arguments for a document next to the device files, with a path to the output. -/
def sampleArguments (output : String) : List (List UInt8) :=
  ["pdf", "--file", "a.pdf", "--output", output, "--from", "a", "--to", "b"].map fun text =>
    Utf8.encode text.toList

def sampleDocument : List UInt8 := [37, 80, 68, 70]

def sampleFiles : FileSystem :=
  FileSystem.bare.put [Name.ofString "a.pdf"] (.file sampleDocument)

theorem resolve_document : sampleFiles.resolve .follow (.ofString "a.pdf") =
    .ok ⟨[Name.ofString "a.pdf"], some (.file sampleDocument), false⟩ := by
  have hWalk : sampleFiles.resolve .follow (.ofString "a.pdf") =
      walk sampleFiles.root .follow maxLinks [] [Name.ofString "a.pdf"] false := rfl
  rw [hWalk, walk]
  rfl

theorem resolve_envelope : sampleFiles.resolve .create (.ofString "mail.json") =
    .ok ⟨[Name.ofString "mail.json"], none, false⟩ := by
  have hWalk : sampleFiles.resolve .create (.ofString "mail.json") =
      walk sampleFiles.root .create maxLinks [] [Name.ofString "mail.json"] false := rfl
  rw [hWalk, walk]
  rfl

theorem resolve_null (ending : Ending) : sampleFiles.resolve ending (.ofString "/dev/null") =
    .ok ⟨[Name.ofString "dev", Name.ofString "null"], some (.device .null), false⟩ := by
  have hWalk : sampleFiles.resolve ending (.ofString "/dev/null") =
      walk sampleFiles.root ending maxLinks []
        [Name.ofString "dev", Name.ofString "null"] false := rfl
  rw [hWalk, walk]
  change walk _ _ _ _ _ _ = _
  rw [walk]
  cases ending <;> rfl

theorem fileContent_document :
    sampleFiles.fileContent (.ofString "a.pdf") = .ok sampleDocument := by
  rw [fileContent, status, resolve_document]
  rfl

/-- An envelope is delivered for the sample, and `/dev/null` in its place takes what it is given. -/
theorem delivers_of_sample :
    task (sampleArguments "mail.json") [] =
        .ok ⟨.pdf (.ofString "a.pdf") (.ofString "mail.json") "a" "b", .ofSettings [] []⟩ ∧
      ¬(boundaryOf default).toList <:+: (Path.ofString "a.pdf").display.toList ∧
      (execute (sampleArguments "mail.json") [] (boundaryOf default)
        sampleFiles).2.exitCode.toNat = 0 ∧
      ∃ content, (execute (sampleArguments "mail.json") [] (boundaryOf default)
          sampleFiles).1.fileContent (.ofString "mail.json") = .ok content ∧
        Envelope.carried? content = some sampleDocument := by
  have hTask : task (sampleArguments "mail.json") [] =
      .ok ⟨.pdf (.ofString "a.pdf") (.ofString "mail.json") "a" "b", .ofSettings [] []⟩ := by
    decide +kernel
  have hBoundary : ¬(boundaryOf default).toList <:+: (Path.ofString "a.pdf").display.toList := by
    decide +kernel
  have hDelivers := delivers_of_execute sampleFiles default hTask hBoundary
  have hCanWrite : sampleFiles.canWrite (.ofString "mail.json") := by
    rw [canWrite, putFile, resolve_envelope]
    rfl
  have hFile : ¬sampleFiles.leadsToDevice (.ofString "mail.json") := by
    rw [leadsToDevice, resolve_envelope]
    exact Bool.false_ne_true
  obtain ⟨hCode, spot, content, -, -, -, hRead, hCarried⟩ :=
    hDelivers.written sampleDocument fileContent_document hCanWrite hFile
  exact ⟨hTask, hBoundary, hCode, content, hRead, hCarried⟩

/-- What is written to the null device cannot be read back: the run succeeds, and the output path
leads to no envelope. -/
theorem not_written_of_null :
    task (sampleArguments "/dev/null") [] =
        .ok ⟨.pdf (.ofString "a.pdf") (.ofString "/dev/null") "a" "b", .ofSettings [] []⟩ ∧
      ¬(boundaryOf default).toList <:+: (Path.ofString "a.pdf").display.toList ∧
      sampleFiles.fileContent (.ofString "a.pdf") = .ok sampleDocument ∧
      sampleFiles.canWrite (.ofString "/dev/null") ∧
      (execute (sampleArguments "/dev/null") [] (boundaryOf default)
        sampleFiles).2.exitCode.toNat = 0 ∧
      ¬∃ content, (execute (sampleArguments "/dev/null") [] (boundaryOf default)
          sampleFiles).1.fileContent (.ofString "/dev/null") = .ok content ∧
        Envelope.carried? content = some sampleDocument := by
  have hTask : task (sampleArguments "/dev/null") [] =
      .ok ⟨.pdf (.ofString "a.pdf") (.ofString "/dev/null") "a" "b", .ofSettings [] []⟩ := by
    decide +kernel
  obtain ⟨message, hCompose, -⟩ := Notification.pdf.exists_compose "a" "b" fileContent_document
  have hPut (content : List UInt8) :
      sampleFiles.putFile (.ofString "/dev/null") content = .ok sampleFiles := by
    rw [putFile, resolve_null]
    rfl
  have hCanWrite : sampleFiles.canWrite (.ofString "/dev/null") := by
    rw [canWrite, hPut]
    rfl
  obtain ⟨hChanged, hCode⟩ := execute_of_task (boundaryOf default) sampleFiles hTask
  rw [hCode, hChanged, run_pdf_of_written hCompose (hPut _)]
  have hEmpty : sampleFiles.fileContent (.ofString "/dev/null") = .ok [] := by
    rw [fileContent, status, resolve_null]
    rfl
  refine ⟨hTask, by decide +kernel, fileContent_document, hCanWrite, rfl, ?_⟩
  rintro ⟨content, hRead, hCarried⟩
  obtain rfl := Except.ok.inj (hEmpty.symm.trans hRead)
  exact absurd hCarried (by decide +kernel)

end ExportKit.CommandLine.MailTool
