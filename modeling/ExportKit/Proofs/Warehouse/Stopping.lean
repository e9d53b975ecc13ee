import ExportKit.Proofs.Warehouse.Independence
import Mathlib.Data.List.Induction

/-!
A run over all tables stops at the first that fails. It comes to what runs over each table alone
come to, up to that one, and the tables after it stay as they were. Main statement:
`stopsAt_of_generate`.
-/
namespace ExportKit.Warehouse

open FileSystem
open Table (Kind Stamp)

variable {fs after : FileSystem} {config : Configuration} {kind : Kind} {kinds : List Kind}
  {stamp : Stamp} {stamps : Kind → Stamp} {warehouse : Location} {failure : Failure}

/-! Failures of runs over a table. -/

/-- Nothing but a refusal of the operating system makes a computation fail. -/
def FailsByRefusal {α : Type} (x : Except Failure α) : Prop :=
  ∀ failure, x = .error failure → ∃ path fault, failure = .io path fault

namespace FailsByRefusal

variable {α β : Type}

theorem ok (a : α) : FailsByRefusal (.ok a) := by
  rintro failure ⟨⟩

theorem ofOperation (path : Path) (x : Except Fault α) :
    FailsByRefusal (Failure.ofOperation path x) := by
  cases x with
  | ok a => exact ok a
  | error fault =>
      rintro failure ⟨⟩
      exact ⟨path, fault, rfl⟩

theorem bind {x : Except Failure α} {f : α → Except Failure β} (h : FailsByRefusal x)
    (hNext : ∀ a, FailsByRefusal (f a)) : FailsByRefusal (x >>= f) := by
  cases x with
  | error failure =>
      rintro _ ⟨⟩
      exact h failure rfl
  | ok a => exact hNext a

theorem mapM {f : α → Except Failure β} (h : ∀ a, FailsByRefusal (f a)) (as : List α) :
    FailsByRefusal (as.mapM f) := by
  induction as with
  | nil => exact ok []
  | cons a as ih =>
      rw [List.mapM_cons]
      exact (h a).bind fun b => ih.bind fun bs => ok (b :: bs)

end FailsByRefusal

/-- A search for data files fails only where the operating system refuses something. -/
theorem failsByRefusal_dataFiles (fs : FileSystem) (dataDir : Path) :
    FailsByRefusal (Scan.dataFiles fs dataDir) := by
  refine (FailsByRefusal.ofOperation _ _).bind fun names =>
    (FailsByRefusal.mapM (fun name => ?_) _).bind fun files => .ok _
  simp only [Scan.partitionFiles]
  split
  next dirName _ =>
    split
    next =>
      refine (FailsByRefusal.ofOperation _ _).bind fun children =>
        (FailsByRefusal.mapM (fun child => ?_) _).bind fun found => .ok _
      refine (FailsByRefusal.ofOperation _ _).bind fun node => ?_
      split <;> exact .ok _
    next => exact .ok _
  next => exact .ok _

theorem failsByRefusal_ofTable (fs : FileSystem) (tableDir : Path) :
    FailsByRefusal (Scan.ofTable fs tableDir) := by
  simp only [Scan.ofTable]
  split
  next => exact .ok _
  next =>
    split
    next => exact .ok _
    next =>
      refine (failsByRefusal_dataFiles _ _).bind fun files => ?_
      split <;> exact .ok _

/-- A run over a table fails only if the operating system refuses an operation on a path. -/
theorem failsByRefusal_generateTable (config : Configuration) (kind : Kind) (stamp : Stamp)
    (fs : FileSystem) : FailsByRefusal (generateTable config kind stamp fs).1 := by
  rw [generateTable_eq]
  split
  next =>
    rw [passedOver]
    cases hScan : Scan.ofTable fs (config.tableDir kind) with
    | error failure =>
        rintro _ ⟨⟩
        exact failsByRefusal_ofTable fs _ failure hScan
    | ok scan => cases scan <;> exact .ok _
  next files _ =>
    split
    next => exact .ok _
    next failure last hWrite =>
      rintro _ ⟨⟩
      obtain ⟨_, step, _, _, fault, -, -, -, hFailure, -⟩ := writeDocuments_eq_error hWrite
      exact ⟨step.path, fault, hFailure⟩

/-! Runs over several tables. -/

/-- As long as no table fails, it makes no difference that a run would stop there. -/
theorem generateEach_of_ok {outcomes : List TableOutcome}
    (h : generateTables config stamps kinds fs = (.ok outcomes, after)) :
    generateEach config stamps kinds fs = (outcomes.map .ok, after) := by
  induction kinds generalizing fs outcomes with
  | nil =>
      cases h
      rfl
  | cons kind kinds ih =>
      rw [generateTables_cons] at h
      rw [generateEach_cons]
      cases hFirst : generateTable config kind (stamps kind) fs with
      | mk first middle =>
        cases hOthers : generateTables config stamps kinds middle with
        | mk others last =>
          rw [hFirst] at h
          cases first with
          | error failure => cases h
          | ok outcome =>
              simp only [hOthers] at h
              cases others with
              | error failure => cases h
              | ok rest =>
                  cases h
                  simp only [ih hOthers, List.map_cons]

/-- A run over each of some tables ends with the last of them. -/
theorem generateEach_concat (config : Configuration) (stamps : Kind → Stamp) (kinds : List Kind)
    (kind : Kind) (fs : FileSystem) :
    generateEach config stamps (kinds ++ [kind]) fs =
      match generateEach config stamps kinds fs with
      | (results, middle) =>
        match generateTable config kind (stamps kind) middle with
        | (result, after) => (results ++ [result], after) := by
  induction kinds generalizing fs with
  | nil =>
      rw [List.nil_append, generateEach_cons]
      rfl
  | cons first kinds ih =>
      rw [List.cons_append, generateEach_cons, generateEach_cons]
      simp only [ih]
      rfl

/-- A run over several tables stops before the last of them, or comes to its turn. -/
theorem generateTables_concat_cases {result : Except Failure (List TableOutcome)}
    (h : generateTables config stamps (kinds ++ [kind]) fs = (result, after)) :
    (∃ failure, generateTables config stamps kinds fs = (.error failure, after) ∧
      result = .error failure) ∨
    ∃ outcomes middle turn, generateTables config stamps kinds fs = (.ok outcomes, middle) ∧
      generateTable config kind (stamps kind) middle = (turn, after) ∧
      result = turn.map fun outcome => outcomes ++ [outcome] := by
  simp only [generateTables, List.mapM_append, List.mapM_cons, List.mapM_nil, pure_bind,
    bind_assoc] at h
  rcases Activity.bind_eq h with ⟨failure, hBefore, rfl⟩ | ⟨outcomes, middle, hBefore, hLast⟩
  · exact .inl ⟨failure, hBefore, rfl⟩
  · rcases Activity.bind_eq hLast with ⟨failure, hTurn, rfl⟩ | ⟨outcome, last, hTurn, hReturn⟩
    · exact .inr ⟨outcomes, middle, _, hBefore, hTurn, rfl⟩
    · cases hReturn
      exact .inr ⟨outcomes, middle, _, hBefore, hTurn, rfl⟩

/-- A run over several tables that does not fail has not failed before. -/
theorem exists_ok_of_append {before rest : List Kind} {outcomes : List TableOutcome}
    (h : generateTables config stamps (before ++ rest) fs = (.ok outcomes, after)) :
    ∃ earlier middle, generateTables config stamps before fs = (.ok earlier, middle) := by
  induction rest using List.reverseRecOn generalizing outcomes after with
  | nil =>
      rw [List.append_nil] at h
      exact ⟨outcomes, after, h⟩
  | append_singleton rest kind ih =>
      rw [← List.append_assoc] at h
      rcases generateTables_concat_cases h with ⟨_, -, hFailure⟩ | ⟨_, _, _, hRest, -, -⟩
      · cases hFailure
      · exact ih hRest

/-- If a run over all tables does not fail, no table fails in its turn. -/
theorem exists_outcome_atTurn {outcomes : List TableOutcome}
    (h : generateTables config stamps Kind.all fs = (.ok outcomes, after)) (kind : Kind) :
    ∃ outcome, (generateTable config kind (stamps kind) (atTurn config stamps fs kind)).1 =
      .ok outcome := by
  obtain ⟨before, rest, hKinds⟩ : ∃ before rest, Kind.all = before ++ kind :: rest :=
    List.append_of_mem (by cases kind <;> decide)
  rw [hKinds, List.append_cons] at h
  obtain ⟨earlier, last, hLast⟩ := exists_ok_of_append h
  rcases generateTables_concat_cases hLast with
    ⟨_, -, hFailure⟩ | ⟨outcomes, middle, turn, hBefore, hTurn, hResult⟩
  · cases hFailure
  · rw [atTurn_eq hKinds, hBefore, hTurn]
    cases turn with
    | error failure => cases hResult
    | ok outcome => exact ⟨outcome, rfl⟩

/-- A run over several tables fails in the turn of one of them. -/
theorem exists_failing_turn (h : generateTables config stamps kinds fs = (.error failure, after)) :
    ∃ before kind rest outcomes middle, kinds = before ++ kind :: rest ∧
      generateTables config stamps before fs = (.ok outcomes, middle) ∧
      generateTable config kind (stamps kind) middle = (.error failure, after) := by
  induction kinds generalizing fs with
  | nil => cases h
  | cons kind kinds ih =>
      rw [generateTables_cons] at h
      split at h
      next outcome middle hFirst =>
        split at h
        next => cases h
        next other last hRest =>
          cases h
          obtain ⟨before, turn, rest, outcomes, state, rfl, hBefore, hTurn⟩ := ih hRest
          refine ⟨kind :: before, turn, rest, outcome :: outcomes, state, rfl, ?_, hTurn⟩
          rw [generateTables_cons, hFirst]
          simp only [hBefore]
      next other middle hFirst =>
        cases h
        exact ⟨[], kind, kinds, [], fs, rfl, rfl, hFirst⟩

/-- A run that fails comes to what runs over its tables in turn come to, up to one that fails, and
does no more. -/
theorem exists_failing_table (h : generateTables config stamps kinds fs = (.error failure, after)) :
    ∃ (before : List Kind) (kind : Kind) (rest : List Kind) (outcomes : List TableOutcome),
      kinds = before ++ kind :: rest ∧
        generateEach config stamps (before ++ [kind]) fs =
          (outcomes.map .ok ++ [.error failure], after) := by
  obtain ⟨before, kind, rest, outcomes, middle, hKinds, hBefore, hTurn⟩ := exists_failing_turn h
  refine ⟨before, kind, rest, outcomes, hKinds, ?_⟩
  rw [generateEach_concat, generateEach_of_ok hBefore]
  simp only [hTurn]

/-- How a run over all tables stops at one of them: what it did with those before is what runs over
each alone do, it failed as a run over this one alone fails, and those after it stay as they were.
Within the directory of the one that failed, only the documents may differ. -/
structure StopsAt (config : Configuration) (stamps : Kind → Stamp) (warehouse : Location)
    (before : List Kind) (kind : Kind) (rest : List Kind) (failure : Failure)
    (fs after : FileSystem) : Prop where
  succeeds : ∀ other ∈ before, ∃ outcome,
    (generateTable config other (stamps other) fs).1 = .ok outcome
  fails : (generateTable config kind (stamps kind) fs).1 = .error failure
  agrees : ∀ other ∈ before ++ [kind],
    AgreeBelow (generateTable config other (stamps other) fs).2 (tableLocation warehouse other) after
      (tableLocation warehouse other)
  untouched : ∀ other ∈ rest,
    AgreeBelow fs (tableLocation warehouse other) after (tableLocation warehouse other)
  confined : ∀ location, (∀ other ∈ before ++ [kind], ¬documentsLocation warehouse other <+: location) →
    after.entryAt? location = fs.entryAt? location

/-- Nothing but documents of the tables differs. -/
theorem ChangesTables.confined {location : Location} (h : ChangesTables warehouse kinds fs after)
    (hLocation : ∀ kind ∈ kinds, ¬documentsLocation warehouse kind <+: location) :
    after.entryAt? location = fs.entryAt? location := by
  apply h.entry
  intro kind hKind
  constructor
  · rintro rfl
    exact hLocation kind hKind (List.prefix_refl _)
  · rintro name rfl
    exact hLocation kind hKind (List.prefix_append _ _)

/-- A run that fails at a table stops there. -/
theorem stopsAt_of_actsAlone {before rest : List Kind} {outcomes : List TableOutcome}
    (hKinds : Kind.all = before ++ kind :: rest)
    (h : ActsAlone config stamps warehouse (before ++ [kind]) fs
      (outcomes.map .ok ++ [.error failure]) after) :
    StopsAt config stamps warehouse before kind rest failure fs after := by
  have hResults := h.results_eq
  rw [List.map_append, List.map_singleton] at hResults
  obtain ⟨hBefore, hLast⟩ := List.append_inj' hResults rfl
  obtain ⟨hNotBefore, hNotRest⟩ := notMem_of_all_eq hKinds
  refine ⟨fun other hOther => ?_, (List.singleton_inj.mp hLast).symm, h.table, fun other hOther => ?_,
    fun location => h.changes.confined⟩
  · have hResult := List.mem_map_of_mem (f := fun kind =>
      (generateTable config kind (stamps kind) fs).1) hOther
    rw [← hBefore, List.mem_map] at hResult
    obtain ⟨outcome, -, hOutcome⟩ := hResult
    exact ⟨outcome, hOutcome.symm⟩
  · apply h.changes.agreeBelow
    have hNodup : (before ++ kind :: rest).Nodup := by
      rw [← hKinds]
      decide
    rw [List.append_cons] at hNodup
    exact fun hMem => (List.nodup_append.mp hNodup).2.2 other hMem other hOther rfl

/-- The outcomes of runs over some tables have the names of these. -/
theorem map_table_of_results {outcomes : List TableOutcome}
    (h : outcomes.map .ok = kinds.map fun kind => (generateTable config kind (stamps kind) fs).1) :
    outcomes.map TableOutcome.table = kinds.map Kind.name := by
  induction kinds generalizing outcomes with
  | nil => rw [List.map_eq_nil_iff.mp h, List.map_nil, List.map_nil]
  | cons kind kinds ih =>
      obtain ⟨outcome, others, rfl, hOutcome, hOthers⟩ := List.map_eq_cons_iff.mp h
      rw [List.map_cons, List.map_cons, ih hOthers,
        table_of_generateTable (Prod.ext hOutcome.symm rfl)]

/-- A run over a warehouse whose only links are pointers fails because the warehouse is not a
directory, and then nothing changes, or because the operating system refuses an operation for one of
the tables, and then it stops there. If it does not fail, it reports for all tables, in their order,
what runs over each alone come to, and leaves what they leave. -/
theorem stopsAt_of_generate {generatedAt : String} {result : Except Failure Report}
    (hPointers : OnlyPointers fs warehouse) (hLeads : LeadsOnlyTo fs config.warehouse warehouse)
    (h : generate config stamps generatedAt fs = (result, after)) :
    (∀ failure, result = .error failure →
      failure = .warehouseNotFound config.warehouse ∧ ¬fs.isDir config.warehouse ∧ after = fs ∨
      ∃ path fault before kind rest, failure = .io path fault ∧
        [Kind.blocks, .transactions, .tags] = before ++ kind :: rest ∧
        StopsAt config stamps warehouse before kind rest failure fs after) ∧
    ∀ report, result = .ok report →
      report.tables.map TableOutcome.table = ["blocks", "transactions", "tags"] ∧
      report.tables.map Except.ok = [Kind.blocks, .transactions, .tags].map (fun kind =>
        (generateTable config kind (stamps kind) fs).1) ∧
      ∀ kind, AgreeBelow (generateTable config kind (stamps kind) fs).2
        (tableLocation warehouse kind) after (tableLocation warehouse kind) := by
  rw [generate_apply] at h
  split at h
  next hDir =>
    cases hRun : generateTables config stamps Kind.all fs with
    | mk tables last =>
      rw [hRun] at h
      cases tables with
      | error failure =>
          cases h
          refine ⟨?_, by simp⟩
          rintro _ ⟨⟩
          right
          obtain ⟨before, kind, rest, outcomes, hKinds, hEach⟩ := exists_failing_table hRun
          have hNodup : (before ++ [kind]).Nodup := by
            have hAll : (before ++ kind :: rest).Nodup := by
              rw [← hKinds]
              decide
            rw [List.append_cons] at hAll
            exact (List.nodup_append.mp hAll).1
          have hStops := stopsAt_of_actsAlone hKinds
            (actsAlone_of_leadsOnlyTo hPointers hLeads hDir hNodup hEach)
          obtain ⟨path, fault, hFailure⟩ :=
            failsByRefusal_generateTable config kind (stamps kind) fs failure hStops.fails
          exact ⟨path, fault, before, kind, rest, hFailure, hKinds, hStops⟩
      | ok outcomes =>
          cases h
          refine ⟨by simp, ?_⟩
          rintro _ ⟨⟩
          have hAlone := actsAlone_of_leadsOnlyTo hPointers hLeads hDir (by decide)
            (generateEach_of_ok hRun)
          exact ⟨map_table_of_results hAlone.results_eq, hAlone.results_eq,
            fun kind => hAlone.table kind (by cases kind <;> decide)⟩
  next hDir =>
    cases h
    refine ⟨?_, by simp⟩
    rintro _ ⟨⟩
    exact .inl ⟨rfl, hDir, rfl⟩

/-- A run along a path that is too long for the documents stops at the first table. -/
theorem stopsAt_of_long_path : ∃ failure after path fault before kind rest,
    OnlyPointers (singleFileTree "x") [] ∧
    LeadsOnlyTo (singleFileTree "x") (hereConfiguration 4069).warehouse [] ∧
    generate (hereConfiguration 4069) (fun _ => ⟨0, default, default⟩) "" (singleFileTree "x") =
      (.error failure, after) ∧
    failure = .io path fault ∧ [Kind.blocks, .transactions, .tags] = before ++ kind :: rest ∧
    StopsAt (hereConfiguration 4069) (fun _ => ⟨0, default, default⟩) [] before kind rest failure
      (singleFileTree "x") after := by
  have hPointers : OnlyPointers (singleFileTree "x") [] := by
    intro location target hPrefix hLink
    exact absurd hLink ((isUntouched_singleFileTree "x").no_link location target hPrefix)
  have hLeads := leadsOnlyTo_here "x" (show 4069 + 1 ≤ maxPath by decide)
  obtain ⟨failure, hRun⟩ := generate_of_long_path
  obtain ⟨hFailure, -⟩ := stopsAt_of_generate hPointers hLeads hRun
  rcases hFailure failure rfl with ⟨-, hNotDir, -⟩ | ⟨path, fault, before, kind, rest, hStops⟩
  · exact absurd (isDir_here "x" (by decide)) hNotDir
  · exact ⟨failure, _, path, fault, before, kind, rest, hPointers, hLeads, hRun, hStops⟩

end ExportKit.Warehouse
