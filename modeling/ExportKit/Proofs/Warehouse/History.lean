import ExportKit.Proofs.Warehouse.Completeness

/-!
Histories of a warehouse: runs one after the other, between which anything may happen to the data
files. No run leaves a table with documents that are not complete, as long as the paths of the
documents are not too long.
-/
namespace ExportKit.Warehouse

open FileSystem
open Table (DataFile Documents Kind Stamp)
open Table.Documents (directoryName)

variable {fs fs' after : FileSystem} {config : Configuration} {kind other : Kind} {stamp : Stamp}
  {warehouse : Location}

/-- A path leads to one location, if it leads anywhere. -/
def LeadsOnlyTo (fs : FileSystem) (path : Path) (location : Location) : Prop :=
  ∀ spot, fs.resolve .follow path = .ok spot → spot.node? ≠ none → spot.location = location

/-- The paths of the documents of every table are short enough, or that of the table is so long that
no data file can be found in it. -/
def HasRoom (config : Configuration) : Prop :=
  ∀ kind : Kind, (config.tableDir kind).bytes.length + 60 ≤ maxPath ∨
    maxPath < (config.tableDir kind).bytes.length + 17

/-- A state that a warehouse comes to by runs with allowed configurations and by changes of the data
directories of its tables. A run may fail, and still leaves what it did. -/
inductive History (allowed : Configuration → Prop) (warehouse : Location) (start : FileSystem) :
    FileSystem → Prop where
  | start : History allowed warehouse start start
  | run {fs after : FileSystem} {config : Configuration} {stamps : Kind → Stamp}
      {generatedAt : String} {result : Except Failure Report}
      (prior : History allowed warehouse start fs) (leads : LeadsOnlyTo fs config.warehouse warehouse)
      (isAllowed : allowed config) (last : generate config stamps generatedAt fs = (result, after)) :
      History allowed warehouse start after
  | change {fs after : FileSystem} (prior : History allowed warehouse start fs)
      (last : ∀ location, (∀ kind, ¬dataLocation warehouse kind <+: location) →
        after.entryAt? location = fs.entryAt? location) :
      History allowed warehouse start after

/-- A warehouse without links in which no table has documents. -/
structure IsUntouched (fs : FileSystem) (warehouse : Location) : Prop where
  no_link : ∀ location target, warehouse <+: location → fs.entryAt? location ≠ some (.link target)
  no_documents : ∀ kind, fs.entryAt? (documentsLocation warehouse kind) = none

/-- What holds of a warehouse at any time: no table is reached by a link, and the documents of a
table are complete if there are any. -/
structure IsSound (fs : FileSystem) (warehouse : Location) : Prop where
  no_link : ∀ kind target, fs.entryAt? (tableLocation warehouse kind) ≠ some (.link target)
  documents : ∀ kind, fs.entryAt? (documentsLocation warehouse kind) = none ∨
    IsTidy fs (documentsLocation warehouse kind) ∧ IsComplete fs (documentsLocation warehouse kind)

/-- A warehouse that no run has come to is sound. -/
theorem IsUntouched.isSound (h : IsUntouched fs warehouse) : IsSound fs warehouse :=
  ⟨fun kind target => h.no_link _ target (List.prefix_append warehouse [Name.ofString kind.name]),
    fun kind => .inl (h.no_documents kind)⟩

/-! Steps of a history. -/

/-- A change of data files leaves a warehouse sound. -/
theorem IsSound.of_change (h : IsSound fs warehouse)
    (hSame : ∀ location, (∀ kind, ¬dataLocation warehouse kind <+: location) →
      after.entryAt? location = fs.entryAt? location) : IsSound after warehouse := by
  have hDocuments (kind : Kind) (location : Location)
      (hLocation : documentsLocation warehouse kind <+: location) :
      after.entryAt? location = fs.entryAt? location :=
    hSame location fun _ => (not_prefix_of_documents hLocation).2
  constructor
  · intro kind target
    rw [hSame _ fun _ => not_prefix_of_table.2]
    exact h.no_link kind target
  · intro kind
    rcases h.documents kind with hNone | ⟨hTidy, hComplete⟩
    · left
      rw [hDocuments kind _ (List.prefix_refl _), hNone]
    · exact .inr ⟨hTidy.congr (hDocuments kind), hComplete.mono fun location entry hPrefix hEntry =>
        (hDocuments kind location hPrefix).trans hEntry⟩

/-- Writing complete documents of one table leaves those of the others as they are. -/
theorem IsSound.of_isWritten {documents : Documents} (h : IsSound fs warehouse)
    (hWritten : IsWritten fs after (documentsLocation warehouse kind) documents)
    (hComplete : IsComplete after (documentsLocation warehouse kind)) :
    IsSound after warehouse := by
  constructor
  · intro other target
    rw [hWritten.changesOnly.entry _ not_prefix_of_table.1]
    exact h.no_link other target
  · intro other
    by_cases hKind : kind = other
    · subst hKind
      exact .inr ⟨hWritten.isTidy, hComplete⟩
    · have hSame (location : Location)
          (hLocation : documentsLocation warehouse other <+: location) :
          after.entryAt? location = fs.entryAt? location :=
        hWritten.changesOnly.entry location
          ((not_prefix_of_documents hLocation).1 (Ne.symm hKind))
      rcases h.documents other with hNone | ⟨hTidy, hOther⟩
      · left
        rw [hSame _ (List.prefix_refl _), hNone]
      · exact .inr ⟨hTidy.congr hSame, hOther.mono fun location entry hPrefix hEntry =>
          (hSame location hPrefix).trans hEntry⟩

/-! Runs over one table. -/

/-- The path of the warehouse reaches one location, if it reaches any. -/
def OnlyReaches (fs : FileSystem) (path : Path) (location : Location) : Prop :=
  ∀ links other, Reaches fs path links other → other = location

theorem LeadsOnlyTo.onlyReaches {path : Path} (h : LeadsOnlyTo fs path warehouse)
    (hDir : fs.isDir path) : OnlyReaches fs path warehouse := by
  intro links other hReaches
  obtain ⟨node, hStatus, -⟩ := Scan.exists_status_of_isDir hDir
  obtain ⟨spot, hResolve, hNode⟩ := exists_resolve_of_status hStatus
  have hStart : fs.start? path ≠ none := by
    obtain ⟨start, names, hStart, -⟩ := hReaches
    simp [hStart]
  obtain ⟨links', hSpot, -⟩ := exists_reaches_of_resolve hStart hResolve hNode
  rw [(hReaches.unique hSpot).2]
  exact h spot hResolve (by simp [hNode])

/-- A run that keeps paths keeps where the path of the warehouse leads. -/
theorem OnlyReaches.of_keepsPaths {path : Path} {links : Nat} (hReaches : Reaches fs path links warehouse)
    (hDir : fs.entryAt? warehouse = some .dir) (hKeeps : KeepsPaths fs after) :
    OnlyReaches after path warehouse := by
  intro links' other hOther
  exact (hOther.unique (hKeeps path links warehouse hReaches hDir).1).2

/-- The directory of a table that a run finds is that of the warehouse. -/
theorem reaches_tableDir
    (hLink : ∀ target, fs.entryAt? (tableLocation warehouse kind) ≠ some (.link target))
    (hOnly : OnlyReaches fs config.warehouse warehouse) (hDir : fs.isDir (config.tableDir kind)) :
    ∃ links, Reaches fs config.warehouse links warehouse ∧
      Reaches fs (config.tableDir kind) links (tableLocation warehouse kind) ∧
      fs.entryAt? (tableLocation warehouse kind) = some .dir ∧ 0 ∉ (config.tableDir kind).bytes := by
  have hName := (Table.fits_kind_name kind).proper
  obtain ⟨node, hStatus, hIsDir⟩ := Scan.exists_status_of_isDir hDir
  obtain ⟨spot, hResolve, -⟩ := exists_resolve_of_status hStatus
  obtain ⟨links, location, hTable, hNode⟩ := exists_reaches_of_status_join hName hStatus
  obtain ⟨between, middle, hWarehouse, hLeads⟩ := hTable.exists_of_join hName
  obtain rfl := hOnly between middle hWarehouse
  have hEntry : fs.entryAt? location = some .dir := by
    rw [entryAt?, at?, hNode, Option.map_some, (Node.entry_eq_dir_iff node).mpr hIsDir]
  obtain ⟨rfl, rfl⟩ := hLeads.eq_of_singleton hName hLink
  exact ⟨between, hWarehouse, hTable, hEntry, (accepts_of_resolve hResolve).not_mem_zero⟩

/-- What a run over one or more tables keeps: the warehouse is sound, and its path leads to it. -/
structure IsServed (config : Configuration) (fs : FileSystem) (warehouse : Location) : Prop where
  isSound : IsSound fs warehouse
  onlyReaches : OnlyReaches fs config.warehouse warehouse

/-- A run over a table with files to record writes complete documents about them. -/
theorem generateTable_isWritten {documents : Documents} (hServed : IsServed config fs warehouse)
    (hRoom : HasRoom config) (hDocuments : documentsOf? config fs kind stamp = some documents) :
    ∃ outcome after, generateTable config kind stamp fs = (.ok outcome, after) ∧
      outcome.status = .written ∧ IsServed config after warehouse ∧
      IsWritten fs after (documentsLocation warehouse kind) documents := by
  obtain ⟨outcomeOf, hOutcome, hRun⟩ := generateTable_of_some hDocuments
  obtain ⟨files, hFiles, rfl⟩ := Option.map_eq_some_iff.mp hDocuments
  obtain ⟨discovered, hScan, -, -⟩ := recordedFiles?_eq_some hFiles
  obtain ⟨links, hWarehouse, hTable, hDir, hZero⟩ :=
    reaches_tableDir (hServed.isSound.no_link kind) hServed.onlyReaches (isDir_of_ofTable hScan)
  have hLength : (config.tableDir kind).bytes.length + 60 ≤ maxPath := by
    have hFound := length_tableDir_of_recordedFiles? hFiles
    have hKind := hRoom kind
    omega
  have hNamed : IsNamedBy (documentsFor config fs kind files stamp) stamp := ⟨rfl, rfl⟩
  obtain ⟨after, hWrite, hWritten⟩ := writeDocuments_of_fits hNamed hTable hDir
    ((hServed.isSound.documents kind).imp_right And.left) hZero hLength
  have hWarehouseDir : fs.entryAt? warehouse = some .dir :=
    entryAt?_of_append (List.cons_ne_nil (Name.ofString kind.name) [])
      (by rw [← tableLocation, hDir]; simp)
  rw [hWrite] at hRun
  exact ⟨_, after, hRun, (hOutcome _).2.1,
    ⟨hServed.isSound.of_isWritten hWritten (isComplete_of_holds hWritten.holds),
      .of_keepsPaths hWarehouse hWarehouseDir hWritten.keepsPaths⟩, hWritten⟩

/-- Whatever a run over a table comes to, it only changes the documents of that table. -/
theorem generateTable_isServed {result : Except Failure TableOutcome}
    (hServed : IsServed config fs warehouse) (hRoom : HasRoom config)
    (h : generateTable config kind stamp fs = (result, after)) :
    IsServed config after warehouse ∧ ChangesOnly (documentsLocation warehouse kind) fs after := by
  cases hDocuments : documentsOf? config fs kind stamp with
  | none =>
      rw [documentsOf?, Option.map_eq_none_iff] at hDocuments
      obtain ⟨other, hRun, -⟩ := generateTable_of_none stamp hDocuments
      rw [hRun] at h
      cases h
      exact ⟨hServed, .refl _ fs⟩
  | some documents =>
      obtain ⟨outcome, written, hRun, -, hAfter, hWritten⟩ :=
        generateTable_isWritten hServed hRoom hDocuments
      rw [hRun] at h
      cases h
      exact ⟨hAfter, hWritten.changesOnly⟩

/-- A run passes over a table that the warehouse does not have. -/
theorem generateTable_of_missing (hServed : IsServed config fs warehouse) (stamp : Stamp)
    (hNone : fs.entryAt? (tableLocation warehouse kind) = none) :
    ∃ outcome, generateTable config kind stamp fs = (.ok outcome, fs) := by
  have hMissing : fs.isDir (config.tableDir kind) = false := by
    cases hDir : fs.isDir (config.tableDir kind) with
    | false => rfl
    | true =>
        obtain ⟨links, -, -, hEntry, -⟩ :=
          reaches_tableDir (hServed.isSound.no_link kind) hServed.onlyReaches hDir
        cases hNone.symm.trans hEntry
  rw [generateTable_apply, Scan.ofTable, hMissing]
  exact ⟨_, rfl⟩

/-! Runs over several tables. -/

/-- A run over some tables in turn. -/
def generateTables (config : Configuration) (stamps : Kind → Stamp) (kinds : List Kind) :
    Activity (List TableOutcome) :=
  kinds.mapM fun kind => generateTable config kind (stamps kind)

/-- The state in which a run over all tables comes to one of them. -/
def atTurn (config : Configuration) (stamps : Kind → Stamp) (fs : FileSystem) (kind : Kind) :
    FileSystem :=
  (generateTables config stamps (Kind.all.takeWhile (· ≠ kind)) fs).2

/-- Each table has one turn. -/
theorem notMem_of_all_eq {before rest : List Kind} (h : Kind.all = before ++ kind :: rest) :
    kind ∉ before ∧ kind ∉ rest := by
  have hNodup : (before ++ kind :: rest).Nodup := by
    rw [← h]
    decide
  obtain ⟨-, hTail, hDisjoint⟩ := List.nodup_append.mp hNodup
  exact ⟨fun hMem => hDisjoint kind hMem kind List.mem_cons_self rfl, (List.nodup_cons.mp hTail).1⟩

/-- A table has its turn after those before it in the list. -/
theorem atTurn_eq {before rest : List Kind} (hKinds : Kind.all = before ++ kind :: rest)
    (stamps : Kind → Stamp) (fs : FileSystem) :
    atTurn config stamps fs kind = (generateTables config stamps before fs).2 := by
  have hTake : Kind.all.takeWhile (· ≠ kind) = before := by
    rw [hKinds, List.takeWhile_append_of_pos, List.takeWhile_cons_of_neg (by simp), List.append_nil]
    intro other hOther
    refine decide_eq_true fun hEq => ?_
    exact (notMem_of_all_eq hKinds).1 (hEq ▸ hOther)
  rw [atTurn, hTake]

/-- A run over some tables starts with the first and ends at the first that fails. -/
theorem generateTables_cons (stamps : Kind → Stamp) (kinds : List Kind) (fs : FileSystem) :
    generateTables config stamps (kind :: kinds) fs =
      match generateTable config kind (stamps kind) fs with
      | (.ok outcome, middle) =>
        match generateTables config stamps kinds middle with
        | (.ok outcomes, after) => (.ok (outcome :: outcomes), after)
        | (.error failure, after) => (.error failure, after)
      | (.error failure, middle) => (.error failure, middle) := by
  rw [generateTables, List.mapM_cons, Activity.bind_apply]
  cases generateTable config kind (stamps kind) fs with
  | mk result middle =>
      cases result with
      | error failure => rfl
      | ok outcome =>
          change ((generateTables config stamps kinds) >>= fun outcomes => pure (outcome :: outcomes))
            middle = _
          rw [Activity.bind_apply]
          cases hRest : generateTables config stamps kinds middle with
          | mk result after =>
              simp only [hRest]
              cases result <;> rfl

/-- What each run over a table keeps, and how it relates the states before and after it, carries
over to runs over several tables. -/
theorem generateTables_induction {stamps : Kind → Stamp} {kinds : List Kind}
    (invariant : FileSystem → Prop) (relates : FileSystem → FileSystem → Prop)
    (hRefl : ∀ fs, relates fs fs)
    (hTrans : ∀ fs middle after, relates fs middle → relates middle after → relates fs after)
    (hTable : ∀ kind ∈ kinds, ∀ fs result after, invariant fs →
      generateTable config kind (stamps kind) fs = (result, after) →
        invariant after ∧ relates fs after)
    {result : Except Failure (List TableOutcome)} (hInvariant : invariant fs)
    (h : generateTables config stamps kinds fs = (result, after)) :
    invariant after ∧ relates fs after := by
  induction kinds generalizing fs after result with
  | nil =>
      cases h
      exact ⟨hInvariant, hRefl fs⟩
  | cons kind kinds ih =>
      rw [generateTables, List.mapM_cons] at h
      rcases Activity.bind_eq h with ⟨failure, hFirst, -⟩ | ⟨outcome, middle, hFirst, hRest⟩
      · exact hTable kind List.mem_cons_self fs _ after hInvariant hFirst
      · obtain ⟨hMiddle, hBefore⟩ :=
          hTable kind List.mem_cons_self fs _ middle hInvariant hFirst
        have hOthers {rest : Except Failure (List TableOutcome)} {last : FileSystem}
            (hRun : generateTables config stamps kinds middle = (rest, last)) :
            invariant last ∧ relates fs last := by
          obtain ⟨hLast, hAfter⟩ := ih
            (fun other hOther => hTable other (List.mem_cons_of_mem kind hOther)) hMiddle hRun
          exact ⟨hLast, hTrans fs middle last hBefore hAfter⟩
        rcases Activity.bind_eq hRest with ⟨failure, hRun, -⟩ | ⟨outcomes, last, hRun, hReturn⟩
        · exact hOthers hRun
        · cases hReturn
          exact hOthers hRun

/-- A run over some tables keeps the warehouse served, and changes only documents of theirs. -/
theorem generateTables_isServed {stamps : Kind → Stamp} {kinds : List Kind}
    {result : Except Failure (List TableOutcome)} (hServed : IsServed config fs warehouse)
    (hRoom : HasRoom config) (h : generateTables config stamps kinds fs = (result, after)) :
    IsServed config after warehouse ∧ ∀ location,
      (∀ kind ∈ kinds, ¬documentsLocation warehouse kind <+: location) →
        after.entryAt? location = fs.entryAt? location := by
  apply generateTables_induction (fun fs => IsServed config fs warehouse)
    (fun fs after => ∀ location, (∀ kind ∈ kinds, ¬documentsLocation warehouse kind <+: location) →
      after.entryAt? location = fs.entryAt? location) ?refl ?trans ?table hServed h
  case refl =>
    intro fs location _
    rfl
  case trans =>
    intro fs middle after hBefore hAfter location hLocation
    rw [hAfter location hLocation, hBefore location hLocation]
  case table =>
    intro kind hKind fs result after hServed hRun
    obtain ⟨hAfter, hChanges⟩ := generateTable_isServed hServed hRoom hRun
    exact ⟨hAfter, fun location hLocation => hChanges.entry location (hLocation kind hKind)⟩

/-- Each outcome of a run over several tables is that of one of them, in the state that the run over
the tables before it comes to. -/
theorem exists_turn {stamps : Kind → Stamp} {kinds : List Kind} {outcomes : List TableOutcome}
    (h : generateTables config stamps kinds fs = (.ok outcomes, after)) {outcome : TableOutcome}
    (hOutcome : outcome ∈ outcomes) :
    ∃ before kind rest earlier later state middle, kinds = before ++ kind :: rest ∧
      generateTables config stamps before fs = (.ok earlier, state) ∧
      generateTable config kind (stamps kind) state = (.ok outcome, middle) ∧
      generateTables config stamps rest middle = (.ok later, after) := by
  induction kinds generalizing fs outcomes with
  | nil =>
      cases h
      cases hOutcome
  | cons kind kinds ih =>
      rw [generateTables_cons] at h
      split at h
      next first middle hFirst =>
        split at h
        next others last hRest =>
          obtain ⟨hOutcomes, rfl⟩ := Prod.mk.inj h
          obtain rfl := Except.ok.inj hOutcomes
          rcases List.mem_cons.mp hOutcome with rfl | hOutcome
          · exact ⟨[], kind, kinds, [], others, fs, middle, rfl, rfl, hFirst, hRest⟩
          · obtain ⟨before, turn, rest, earlier, later, state, next, rfl, hBefore, hTurn, hLater⟩ :=
              ih hRest hOutcome
            refine ⟨kind :: before, turn, rest, first :: earlier, later, state, next, rfl, ?_, hTurn,
              hLater⟩
            rw [generateTables_cons, hFirst]
            simp only [hBefore]
        next => cases h
      next => cases h

/-- What a run over all tables writes about one of them is there when it ends. -/
theorem holds_of_written {stamps : Kind → Stamp} {outcomes : List TableOutcome}
    (hServed : IsServed config fs warehouse) (hRoom : HasRoom config)
    (h : generateTables config stamps Kind.all fs = (.ok outcomes, after)) {outcome : TableOutcome}
    (hOutcome : outcome ∈ outcomes) (hTable : outcome.table = kind.name)
    (hStatus : outcome.status = .written) :
    ∃ documents, documentsOf? config (atTurn config stamps fs kind) kind (stamps kind) =
      some documents ∧ Holds after (documentsLocation warehouse kind) documents := by
  obtain ⟨before, turn, rest, earlier, later, state, middle, hKinds, hBefore, hTurn, hLater⟩ :=
    exists_turn h hOutcome
  obtain rfl := kind_name_injective ((table_of_generateTable hTurn).symm.trans hTable)
  have hState : atTurn config stamps fs turn = state := by
    rw [atTurn_eq hKinds, hBefore]
  obtain ⟨documents, files, hDocuments, -, -⟩ := exists_documents_of_written hTurn hStatus
  obtain ⟨hServed, -⟩ := generateTables_isServed hServed hRoom hBefore
  obtain ⟨outcome, written, hRun, -, hServed, hWritten⟩ :=
    generateTable_isWritten hServed hRoom hDocuments
  obtain rfl : written = middle := (Prod.mk.inj (hRun.symm.trans hTurn)).2
  obtain ⟨-, hSame⟩ := generateTables_isServed hServed hRoom hLater
  refine ⟨documents, hState ▸ hDocuments, hWritten.holds.congr fun location hLocation => ?_⟩
  apply hSame location
  intro other hOther
  apply (not_prefix_of_documents hLocation).1
  rintro rfl
  exact (notMem_of_all_eq hKinds).2 hOther

/-! Runs over a warehouse. -/

/-- A run goes over all tables if the path of the warehouse leads to a directory. -/
theorem generate_apply (config : Configuration) (stamps : Kind → Stamp) (generatedAt : String)
    (fs : FileSystem) : generate config stamps generatedAt fs =
      if fs.isDir config.warehouse then
        match generateTables config stamps Kind.all fs with
        | (.ok outcomes, after) => (.ok (config.report generatedAt outcomes), after)
        | (.error failure, after) => (.error failure, after)
      else (.error (.warehouseNotFound config.warehouse), fs) := by
  rw [generate, Activity.get_bind_apply]
  cases hDir : fs.isDir config.warehouse with
  | false => rfl
  | true =>
      change ((generateTables config stamps Kind.all) >>= fun outcomes =>
        pure (config.report generatedAt outcomes)) fs = _
      rw [Activity.bind_apply]
      cases hRun : generateTables config stamps Kind.all fs with
      | mk result after =>
          simp only [if_true]
          cases result <;> rfl

/-- A run goes over all tables and reports on them, unless the path of the warehouse leads to no
directory. -/
theorem generate_eq {stamps : Kind → Stamp} {generatedAt : String} {result : Except Failure Report}
    (h : generate config stamps generatedAt fs = (result, after)) :
    (after = fs ∧ ∃ failure, result = .error failure) ∨
      fs.isDir config.warehouse ∧ ∃ tables, generateTables config stamps Kind.all fs =
        (tables, after) ∧ result = tables.map (config.report generatedAt) := by
  rw [generate_apply] at h
  split at h
  next hDir =>
    right
    refine ⟨hDir, ?_⟩
    split at h
    all_goals
      next hRun =>
        obtain ⟨rfl, rfl⟩ := Prod.mk.inj h
        exact ⟨_, hRun, rfl⟩
  next =>
    obtain ⟨rfl, rfl⟩ := Prod.mk.inj h
    exact .inl ⟨rfl, _, rfl⟩

theorem eq_ok_of_map {ε α β : Type} {f : α → β} {x : Except ε α} {b : β} (h : x.map f = .ok b) :
    ∃ a, x = .ok a ∧ f a = b := by
  cases x with
  | error e => cases h
  | ok a => exact ⟨a, rfl, Except.ok.inj h⟩

/-- Each outcome in a report is that of a run over a table, in the state in which the table had its
turn. -/
theorem exists_turn_of_report {stamps : Kind → Stamp} {generatedAt : String} {report : Report}
    (h : generate config stamps generatedAt fs = (.ok report, after)) {outcome : TableOutcome}
    (hOutcome : outcome ∈ report.tables) :
    ∃ kind middle, generateTable config kind (stamps kind) (atTurn config stamps fs kind) =
      (.ok outcome, middle) := by
  rcases generate_eq h with ⟨-, failure, hFailure⟩ | ⟨-, tables, hRun, hReport⟩
  · cases hFailure
  · obtain ⟨outcomes, rfl, rfl⟩ := eq_ok_of_map hReport.symm
    obtain ⟨before, kind, rest, earlier, later, state, middle, hKinds, hBefore, hTurn, -⟩ :=
      exists_turn hRun hOutcome
    refine ⟨kind, middle, ?_⟩
    rw [atTurn_eq hKinds, hBefore]
    exact hTurn

/-- A run leaves a sound warehouse, and what it reports as written is there. -/
theorem generate_isSound {stamps : Kind → Stamp} {generatedAt : String}
    {result : Except Failure Report} (hSound : IsSound fs warehouse)
    (hLeads : LeadsOnlyTo fs config.warehouse warehouse) (hRoom : HasRoom config)
    (h : generate config stamps generatedAt fs = (result, after)) :
    IsSound after warehouse ∧ ∀ report, result = .ok report → ∀ kind outcome,
      report.table? kind.name = some outcome → outcome.status = .written →
        ∃ documents, documentsOf? config (atTurn config stamps fs kind) kind (stamps kind) =
          some documents ∧ Holds after (documentsLocation warehouse kind) documents := by
  rcases generate_eq h with ⟨rfl, failure, rfl⟩ | ⟨hDir, tables, hRun, rfl⟩
  · exact ⟨hSound, by simp⟩
  · have hServed : IsServed config fs warehouse := ⟨hSound, hLeads.onlyReaches hDir⟩
    refine ⟨(generateTables_isServed hServed hRoom hRun).1.isSound, ?_⟩
    intro report hReport kind outcome hOutcome hStatus
    obtain ⟨outcomes, rfl, rfl⟩ := eq_ok_of_map hReport
    have hTable : outcome.table = kind.name := by simpa using List.find?_some hOutcome
    exact holds_of_written hServed hRoom hRun (List.mem_of_find?_eq_some hOutcome) hTable hStatus

/-- A run over a warehouse that has blocks and no other table writes the documents of the blocks. -/
theorem generate_of_blocks (stamps : Kind → Stamp) {documents : Documents}
    (hServed : IsServed config fs warehouse) (hRoom : HasRoom config)
    (hDir : fs.isDir config.warehouse)
    (hDocuments : documentsOf? config fs .blocks (stamps .blocks) = some documents)
    (hOthers : ∀ kind ≠ .blocks, fs.entryAt? (tableLocation warehouse kind) = none)
    (generatedAt : String) :
    ∃ outcome others after, generate config stamps generatedAt fs =
        (.ok (config.report generatedAt (outcome :: others)), after) ∧
      outcome.table = Kind.blocks.name ∧ outcome.status = .written ∧
      IsWritten fs after (documentsLocation warehouse .blocks) documents := by
  obtain ⟨outcome, after, hFirst, hStatus, hAfter, hWritten⟩ :=
    generateTable_isWritten hServed hRoom hDocuments
  have hMissing (kind : Kind) (hKind : kind ≠ .blocks) :
      ∃ other, generateTable config kind (stamps kind) after = (.ok other, after) := by
    apply generateTable_of_missing hAfter
    rw [hWritten.changesOnly.entry _ not_prefix_of_table.1, hOthers kind hKind]
  obtain ⟨second, hSecond⟩ := hMissing .transactions (by decide)
  obtain ⟨third, hThird⟩ := hMissing .tags (by decide)
  refine ⟨outcome, [second, third], after, ?_, table_of_generateTable hFirst, hStatus, hWritten⟩
  rw [generate_apply, if_pos hDir, Kind.all, generateTables_cons, hFirst]
  simp only [generateTables_cons, hSecond, hThird]
  rfl

/-- Whatever history a warehouse has, it is sound. -/
theorem isSound_of_history {start : FileSystem} (hStart : IsUntouched start warehouse)
    (h : History HasRoom warehouse start fs) : IsSound fs warehouse := by
  induction h with
  | start => exact hStart.isSound
  | run _ hLeads hRoom hRun ih => exact (generate_isSound ih hLeads hRoom hRun).1
  | change _ hSame ih => exact ih.of_change hSame

/-! A warehouse with one data file. -/

/-- In a directory with one entry there is that entry and what lies below it. -/
theorem at?_single {name : Name} {child node : Node} {location : Location}
    (h : (Node.dir [(name, child)]).at? location = some node) :
    location = [] ∧ node = .dir [(name, child)] ∨
      ∃ rest, location = name :: rest ∧ child.at? rest = some node := by
  cases location with
  | nil => exact .inl ⟨rfl, (Option.some_inj.mp h).symm⟩
  | cons first rest =>
      rw [Node.at?, Option.bind_eq_some_iff] at h
      obtain ⟨found, hFound, hRest⟩ := h
      rw [Node.child?, Node.entries, List.lookup_cons] at hFound
      split at hFound
      next hEq =>
        cases hFound
        exact .inr ⟨rest, by rw [eq_of_beq hEq], hRest⟩
      next => cases hFound

/-- The warehouse with one data file is one that no run has come to. -/
theorem isUntouched_singleFileTree (dirName : String) : IsUntouched (singleFileTree dirName) [] := by
  constructor
  · intro location target _ hLink
    rw [entryAt?, Option.map_eq_some_iff] at hLink
    obtain ⟨node, hNode, hEntry⟩ := hLink
    rcases at?_single hNode with ⟨-, rfl⟩ | ⟨inTable, -, hNode⟩
    · cases hEntry
    rcases at?_single hNode with ⟨-, rfl⟩ | ⟨inData, -, hNode⟩
    · cases hEntry
    rcases at?_single hNode with ⟨-, rfl⟩ | ⟨inDir, -, hNode⟩
    · cases hEntry
    rcases at?_single hNode with ⟨-, rfl⟩ | ⟨inFile, -, hNode⟩
    · cases hEntry
    cases inFile with
    | nil =>
        cases hNode
        cases hEntry
    | cons first rest => cases hNode
  · intro kind
    cases kind <;> rfl

theorem leadsOnlyTo_here (dirName : String) {n : Nat} (hLength : n + 1 ≤ maxPath) :
    LeadsOnlyTo (singleFileTree dirName) (hereConfiguration n).warehouse [] := by
  intro spot hSpot _
  rw [resolve_here dirName hLength] at hSpot
  rw [← Except.ok.inj hSpot]

theorem isDir_here (dirName : String) {n : Nat} (hLength : n + 1 ≤ maxPath) :
    (singleFileTree dirName).isDir (hereConfiguration n).warehouse := by
  rw [FileSystem.isDir, status, resolve_here dirName hLength]
  rfl

/-- A run finds the blocks of this warehouse by the path of the warehouse. -/
theorem isServed_here (dirName : String) {n : Nat} (hLength : n + 1 ≤ maxPath) :
    IsServed (hereConfiguration n) (singleFileTree dirName) [] :=
  ⟨(isUntouched_singleFileTree dirName).isSound,
    (leadsOnlyTo_here dirName hLength).onlyReaches (isDir_here dirName hLength)⟩

theorem hasRoom_here {n : Nat} (hLength : n + 74 ≤ maxPath) : HasRoom (hereConfiguration n) := by
  intro kind
  have hTable := (length_tableDir_here n kind).2
  have hName := (Table.fits_kind_name kind).length_le
  exact .inl (by omega)

/-- The data file is found, and its table is that of the working directory. -/
theorem exists_recorded_here {dirName : String} {m n : Nat}
    (hDirName : (Name.ofString dirName).Fits m) (hMaxName : m ≤ maxName)
    (hVisible : dirName.toList.head? ≠ some '.') (hLength : n + m + 24 ≤ maxPath) :
    ∃ files links, recordedFiles? (hereConfiguration n) (singleFileTree dirName) .blocks = some files ∧
      Reaches (singleFileTree dirName) ((hereConfiguration n).tableDir .blocks) links
        (tableLocation [] .blocks) ∧
      (singleFileTree dirName).entryAt? (tableLocation [] .blocks) = some .dir ∧
      0 ∉ ((hereConfiguration n).tableDir .blocks).bytes := by
  have hFiles := recordedFiles?_here hDirName hMaxName hVisible hLength
  obtain ⟨discovered, hScan, -, -⟩ := recordedFiles?_eq_some hFiles
  obtain ⟨links, -, hReaches, hDir, hZero⟩ :=
    reaches_tableDir ((isServed_here dirName (by omega)).isSound.no_link .blocks)
      (isServed_here dirName (by omega)).onlyReaches (isDir_of_ofTable hScan)
  exact ⟨_, links, hFiles, hReaches, hDir, hZero⟩

/-- Where there is room, the documents about the data file are written. -/
theorem generateTable_here {dirName : String} {m n : Nat}
    (hDirName : (Name.ofString dirName).Fits m) (hMaxName : m ≤ maxName)
    (hVisible : dirName.toList.head? ≠ some '.') (hLength : n + m + 74 ≤ maxPath) (stamp : Stamp) :
    ∃ documents outcome after,
      generateTable (hereConfiguration n) .blocks stamp (singleFileTree dirName) =
        (.ok outcome, after) ∧ outcome.status = .written ∧
      IsServed (hereConfiguration n) after [] ∧
      IsWritten (singleFileTree dirName) after (documentsLocation [] .blocks) documents := by
  obtain ⟨files, links, hFiles, -⟩ :=
    exists_recorded_here hDirName hMaxName hVisible (show n + m + 24 ≤ maxPath by omega)
  exact ⟨_, generateTable_isWritten (isServed_here dirName (by omega)) (hasRoom_here (by omega))
    (documentsOf?_of_recordedFiles? hFiles stamp)⟩

/-- A run over all tables writes the documents of the only one that is there. -/
theorem generate_here {dirName : String} {m n : Nat}
    (hDirName : (Name.ofString dirName).Fits m) (hMaxName : m ≤ maxName)
    (hVisible : dirName.toList.head? ≠ some '.') (hLength : n + m + 74 ≤ maxPath)
    (stamps : Kind → Stamp) (generatedAt : String) :
    ∃ outcome others after, generate (hereConfiguration n) stamps generatedAt
        (singleFileTree dirName) =
          (.ok ((hereConfiguration n).report generatedAt (outcome :: others)), after) ∧
      outcome.table = Kind.blocks.name ∧ outcome.status = .written ∧
      after.entryAt? (documentsLocation [] .blocks) = some .dir := by
  obtain ⟨files, links, hFiles, -⟩ :=
    exists_recorded_here hDirName hMaxName hVisible (show n + m + 24 ≤ maxPath by omega)
  have hOthers (kind : Kind) (hKind : kind ≠ .blocks) :
      (singleFileTree dirName).entryAt? (tableLocation [] kind) = none := by
    cases kind <;> first | rfl | exact absurd rfl hKind
  obtain ⟨outcome, others, after, hRun, hTable, hStatus, hWritten⟩ := generate_of_blocks stamps
    (isServed_here dirName (by omega)) (hasRoom_here (by omega)) (isDir_here dirName (by omega))
    (documentsOf?_of_recordedFiles? hFiles (stamps .blocks)) hOthers generatedAt
  exact ⟨outcome, others, after, hRun, hTable, hStatus, hWritten.isTidy.isDir⟩

/-- A path of this length leaves no room for the name of the metadata. -/
theorem not_accepts_versionFile {n : Nat} (hLength : 4063 ≤ n) :
    ¬Accepts ((((hereConfiguration n).tableDir .blocks).child directoryName).child
      Documents.versionFileName) := by
  intro hAccepts
  have hJoinDir := Path.length_join_join (Table.fits_kind_name .blocks).proper
    Table.fits_directoryName.proper (hereConfiguration n).warehouse
  have hJoinFile := Path.length_join_join Table.fits_directoryName.proper
    Table.fits_versionFileName.proper ((hereConfiguration n).tableDir .blocks)
  have hTable : n + 1 + 6 ≤ ((hereConfiguration n).tableDir .blocks).bytes.length :=
    (length_tableDir_here n .blocks).1
  have hDirName : (Name.ofString directoryName).length = 8 := by decide
  have hFileName : (Name.ofString Documents.versionFileName).length = 16 := by decide
  have hFileLength := hAccepts.length_le
  have hMaxPath : maxPath = 4095 := rfl
  simp only [Path.join_ofString] at hJoinDir hJoinFile
  simp only [Configuration.tableDir] at hTable hJoinFile hFileLength
  omega

/-- A run over a table whose path leaves room for a data file and not for the metadata creates the
directory of the documents, and then fails. -/
theorem generate_of_long_path : ∃ failure,
    generate (hereConfiguration 4069) (fun _ => ⟨0, default, default⟩) "" (singleFileTree "x") =
      (.error failure, (singleFileTree "x").put (documentsLocation [] .blocks) (.dir [])) := by
  have hDirName : (Name.ofString "x").Fits 1 :=
    Name.fits_ofString (by decide)
  obtain ⟨files, links, hFiles, hReaches, hDir, hZero⟩ :=
    exists_recorded_here hDirName (by decide) (by decide) (show 4069 + 1 + 24 ≤ maxPath by decide)
  have hTableLength : ((hereConfiguration 4069).tableDir .blocks).bytes.length ≤ 4077 :=
    (length_tableDir_here 4069 .blocks).2
  have hMaxPath : maxPath = 4095 := rfl
  have hAccepts : Accepts (((hereConfiguration 4069).tableDir .blocks).child directoryName) :=
    accepts_join hZero Table.fits_directoryName (by omega)
  have hDocuments := documentsOf?_of_recordedFiles? hFiles ⟨0, default, default⟩
  obtain ⟨failure, hWrite⟩ := writeDocuments_of_long _ hReaches hDir
    ((isUntouched_singleFileTree "x").no_documents .blocks) hAccepts
    (not_accepts_versionFile (by decide))
  obtain ⟨outcomeOf, -, hTable⟩ := generateTable_of_some hDocuments
  rw [hWrite] at hTable
  refine ⟨failure, ?_⟩
  rw [generate_apply, if_pos (isDir_here "x" (by decide)), Kind.all, generateTables_cons, hTable]
  rfl

/-! Histories. -/

/-- Data files and whole partitions may be removed by their paths between two runs. -/
theorem History.removeAll {allowed : Configuration → Prop} {start : FileSystem} {path : Path}
    {name : Name} {links : Nat} {dir : Location} (prior : History allowed warehouse start fs)
    (h : Reaches fs path links dir) (hDir : fs.entryAt? dir = some .dir) (hName : name.IsProper)
    (hLength : name.length ≤ maxName) (hAccepts : Accepts (path.join ⟨name⟩))
    (hFound : fs.entryAt? (dir ++ [name]) ≠ none)
    (hOutside : Reaches (fs.clear (dir ++ [name])) path links dir)
    (hData : dataLocation warehouse kind <+: dir ++ [name]) :
    ∃ after, fs.removeAll (path.join ⟨name⟩) = (after, .ok ()) ∧
      after.entryAt? (dir ++ [name]) = none ∧ History allowed warehouse start after := by
  obtain ⟨after, hRemove, hSame, hNone⟩ :=
    removeAll_entry h hDir hName hLength hAccepts hFound hOutside
  refine ⟨after, hRemove, hNone, prior.change fun location hLocation => ?_⟩
  exact hSame location fun hBelow => hLocation kind (hData.trans hBelow)

/-- In a warehouse that had neither links nor documents, whatever runs and changes of the data files
came after, each table with documents is complete. What a further run reports as written are the
documents that it built in the state in which it came to the table. A write is one step here, which
is refused only because of names, kinds of entries and lengths. -/
theorem isComplete_of_history {start : FileSystem} (hStart : IsUntouched start warehouse)
    (h : History HasRoom warehouse start fs) :
    (∀ kind, fs.entryAt? (documentsLocation warehouse kind) ≠ none →
      IsComplete fs (documentsLocation warehouse kind)) ∧
    ∀ config stamps generatedAt report after, LeadsOnlyTo fs config.warehouse warehouse →
      HasRoom config → generate config stamps generatedAt fs = (.ok report, after) →
        ∀ kind outcome, report.table? kind.name = some outcome → outcome.status = .written →
          ∃ documents, documentsOf? config (atTurn config stamps fs kind) kind (stamps kind) =
            some documents ∧ Holds after (documentsLocation warehouse kind) documents := by
  have hSound := isSound_of_history hStart h
  constructor
  · intro kind hSome
    exact ((hSound.documents kind).resolve_left hSome).2
  · intro config stamps generatedAt report after hLeads hRoom hRun kind outcome hOutcome hStatus
    exact (generate_isSound hSound hLeads hRoom hRun).2 report rfl kind outcome hOutcome hStatus

/-- A run may also be given a path that is so long that it fails halfway. What it leaves then is not
complete, so not every history leaves complete tables. -/
theorem not_isComplete_of_long_path : ¬∀ (warehouse : Location) (start fs : FileSystem),
    IsUntouched start warehouse → History (fun _ => True) warehouse start fs →
      ∀ kind, fs.entryAt? (documentsLocation warehouse kind) ≠ none →
        IsComplete fs (documentsLocation warehouse kind) := by
  intro hAll
  obtain ⟨failure, hRun⟩ := generate_of_long_path
  have hDir : (singleFileTree "x").entryAt? (tableLocation [] .blocks) = some .dir := rfl
  have hComplete := hAll [] (singleFileTree "x") _ (isUntouched_singleFileTree "x")
    (.run .start (leadsOnlyTo_here "x" (by decide)) trivial hRun) .blocks
    (by rw [documentsLocation, entryAt?_put_self hDir]; simp)
  have hPointer := hComplete.pointer
  have hEmpty := entryAt?_put_append hDir (Name.ofString directoryName) (.dir [])
    [Name.ofString Documents.pointerFileName]
  rw [documentsLocation, List.append_assoc] at hPointer
  cases hPointer.symm.trans hEmpty

/-- A run over a warehouse with one data file reports the table as written, and leaves it complete
and with the documents that were built about the file. -/
theorem isComplete_of_single_run : ∃ report after outcome documents,
    IsUntouched (singleFileTree "height=0-9") [] ∧
    generate (hereConfiguration 0) (fun _ => ⟨0, default, default⟩) ""
      (singleFileTree "height=0-9") = (.ok report, after) ∧
    report.table? Kind.blocks.name = some outcome ∧ outcome.status = .written ∧
    documentsOf? (hereConfiguration 0) (singleFileTree "height=0-9") .blocks
      ⟨0, default, default⟩ = some documents ∧
    Holds after (documentsLocation [] .blocks) documents ∧
    History HasRoom [] (singleFileTree "height=0-9") after ∧
    after.entryAt? (documentsLocation [] .blocks) ≠ none ∧
    IsComplete after (documentsLocation [] .blocks) := by
  have hDirName : (Name.ofString "height=0-9").Fits 10 :=
    ⟨Name.isProper_ofString (by decide) (by decide) (by decide), by decide, by decide⟩
  have hUntouched := isUntouched_singleFileTree "height=0-9"
  have hLeads := leadsOnlyTo_here "height=0-9" (show 0 + 1 ≤ maxPath by decide)
  have hRoom := hasRoom_here (show 0 + 74 ≤ maxPath by decide)
  obtain ⟨outcome, others, after, hRun, hTable, hWritten, hDir⟩ := generate_here hDirName
    (by decide) (by decide) (show 0 + 10 + 74 ≤ maxPath by decide)
    (fun _ => ⟨0, default, default⟩) ""
  have hOutcome : ((hereConfiguration 0).report "" (outcome :: others)).table?
      Kind.blocks.name = some outcome := by
    rw [Report.table?, Configuration.report, List.find?_cons_of_pos]
    exact decide_eq_true hTable
  have hFound : after.entryAt? (documentsLocation [] .blocks) ≠ none := by
    rw [hDir]
    simp
  have hHistory : History HasRoom [] (singleFileTree "height=0-9") after :=
    .run .start hLeads hRoom hRun
  obtain ⟨documents, hDocuments, hHolds⟩ := (isComplete_of_history hUntouched .start).2
    _ _ _ _ _ hLeads hRoom hRun .blocks outcome hOutcome hWritten
  exact ⟨_, after, outcome, documents, hUntouched, hRun, hOutcome, hWritten, hDocuments, hHolds,
    hHistory, hFound, (isComplete_of_history hUntouched hHistory).1 .blocks hFound⟩

end ExportKit.Warehouse
