import ExportKit.Proofs.FileSystem.Listing
import ExportKit.Proofs.Normalization
import Mathlib.Data.List.Induction

/-!
File systems without symbolic links. There a path leads where its names alone say, so that the
path from the root that spells the place leads there too.
-/
namespace ExportKit.FileSystem

open ExportKit.Path (slash dot)

def IsLinkFree (fs : FileSystem) : Prop :=
  ∀ location target, fs.entryAt? location ≠ some (.link target)

/-- A path leads to a node at a location. -/
def Finds (fs : FileSystem) (path : Path) (location : Location) (node : Node) : Prop :=
  ∃ slash, fs.resolve .follow path = .ok ⟨location, some node, slash⟩

/-- Relative paths start at a location that paths can spell. -/
structure StartsAt (fs : FileSystem) (here : Location) : Prop where
  workingDir_eq : fs.workingDir = .existing here
  valid : ∀ name ∈ here, name.isValid

variable {fs : FileSystem} {path plain : Path} {links links' : Nat}
  {here location location' : Location} {node : Node}

/-- One step for each name: a dot stays, two dots lead up, and any other name leads down. -/
theorem Leads.eq_foldl (hFree : fs.IsLinkFree) {names : List Name}
    (h : Leads fs links location names links' location') :
    location' = (names.filterMap Path.componentOf?).foldl Component.next location := by
  induction h with
  | nil => rfl
  | here _ _ ih => exact ih
  | up _ _ ih => exact ih
  | entry hDot hDots _ _ _ _ ih =>
      rw [List.filterMap_cons, Path.componentOf?, if_neg hDot, if_neg hDots]
      exact ih
  | link _ _ _ hFound => exact absurd hFound (hFree _ _)

/-- The names at the end are those at the start or were looked up on the way. -/
theorem Leads.mem_or_mem (hFree : fs.IsLinkFree) {names : List Name}
    (h : Leads fs links location names links' location') {name : Name} (hName : name ∈ location') :
    name ∈ location ∨
      name ∈ names ∧ name ≠ [dot] ∧ name ≠ [dot, dot] ∧ name.length ≤ maxName := by
  induction h with
  | nil => exact .inl hName
  | here _ _ ih =>
      exact (ih hName).imp_right fun ⟨hMem, hSound⟩ => ⟨List.mem_cons_of_mem _ hMem, hSound⟩
  | up _ _ ih =>
      exact (ih hName).imp (List.dropLast_subset _ ·)
        fun ⟨hMem, hSound⟩ => ⟨List.mem_cons_of_mem _ hMem, hSound⟩
  | entry hDot hDots hLength _ _ _ ih =>
      rcases ih hName with hBefore | ⟨hMem, hSound⟩
      · rcases List.mem_append.mp hBefore with hStart | hLast
        · exact .inl hStart
        · obtain rfl := List.mem_singleton.mp hLast
          exact .inr ⟨List.mem_cons_self, hDot, hDots, hLength⟩
      · exact .inr ⟨List.mem_cons_of_mem _ hMem, hSound⟩
  | link _ _ _ hFound => exact absurd hFound (hFree _ _)

/-- The names of a location lead to it from the root. -/
theorem leads_of_entryAt? (hFree : fs.IsLinkFree) (hValid : ∀ name ∈ location, name.isValid)
    (h : fs.entryAt? location ≠ none) : Leads fs links [] location links location := by
  induction location using List.reverseRecOn with
  | nil => exact .nil links []
  | append_singleton above name ih =>
      have hAbove := entryAt?_of_append (List.cons_ne_nil name []) h
      obtain ⟨found, hFound⟩ := Option.ne_none_iff_exists'.mp h
      obtain ⟨hProper, hLength, -⟩ := Name.isValid_iff.mp (hValid name (by simp))
      have hLink : ∀ target, found ≠ .link target := by
        rintro target rfl
        exact hFree _ target hFound
      refine (ih (fun other hOther => hValid other (List.mem_append_left _ hOther))
        (by simp [hAbove])).trans ?_
      exact .entry hProper.ne_dot hProper.ne_dots hLength hFound hLink (.nil links _)

/-! Where relative paths start. -/

/-- An absolute path is walked along from the root, and any other one from the working directory. -/
theorem start?_eq (h : path.isAbsolute ∨ fs.StartsAt here) :
    fs.start? path = some (if path.isAbsolute then [] else here, path.segments) := by
  rw [start?]
  split
  next => rfl
  next hAbsolute =>
    rw [(h.resolve_left hAbsolute).workingDir_eq]

/-- The working directory is shown as the path that spells its location. -/
theorem StartsAt.exists_workingPath (h : fs.StartsAt here) :
    ∃ dir, fs.workingPath? = some dir ∧ dir.Spells here := by
  refine ⟨_, by rw [workingPath?, h.workingDir_eq], ?_, fun name hName => ?_⟩
  · rw [Path.ofComponents_root_names]
  · exact .of_isValid (h.valid name hName)

/-! What is found. -/

theorem Finds.accepts (h : fs.Finds path location node) : Accepts path := by
  obtain ⟨slash, hResolve⟩ := h
  exact accepts_of_resolve hResolve

theorem Finds.isDir (h : fs.Finds path location node) (hDir : node.isDir) : fs.isDir path := by
  obtain ⟨slash, hResolve⟩ := h
  have hStatus : fs.status path = .ok node := bind_eq_ok.mpr ⟨_, hResolve, rfl⟩
  rw [FileSystem.isDir, hStatus]
  exact hDir

/-- Without links a path that finds a node leads there by its segments. -/
theorem Finds.leads (h : fs.Finds path location node)
    (hStart : path.isAbsolute ∨ fs.StartsAt here) :
    ∃ links, Leads fs maxLinks (if path.isAbsolute then [] else here) path.segments links location ∧
      fs.root.at? location = some node := by
  obtain ⟨slash, hResolve⟩ := h
  obtain ⟨links, ⟨start, names, hSome, -, hLeads⟩, hAt⟩ :=
    exists_reaches_of_resolve (by simp [start?_eq hStart]) hResolve rfl
  rw [start?_eq hStart, Option.some_inj, Prod.mk.injEq] at hSome
  obtain ⟨rfl, rfl⟩ := hSome
  exact ⟨links, hLeads, hAt⟩

/-- A path leads where its names alone say. -/
theorem Finds.eq_lead (hFree : fs.IsLinkFree) (h : fs.Finds path location node)
    (hStart : path.isAbsolute ∨ fs.StartsAt here) : location = path.lead here := by
  obtain ⟨links, hLeads, -⟩ := h.leads hStart
  exact hLeads.eq_foldl hFree

/-- A location that is found consists of names that directories can hold. -/
theorem Finds.isValid (hFree : fs.IsLinkFree) (h : fs.Finds path location node)
    (hStart : path.isAbsolute ∨ fs.StartsAt here) : ∀ name ∈ location, name.isValid := by
  intro name hName
  obtain ⟨links, hLeads, -⟩ := h.leads hStart
  rcases hLeads.mem_or_mem hFree hName with hBefore | ⟨hMem, hDot, hDots, hLength⟩
  · split at hBefore
    next => cases hBefore
    next hAbsolute => exact (hStart.resolve_left hAbsolute).valid name hBefore
  · have hZero : 0 ∉ name := by
      intro hByte
      exact h.accepts.not_mem_zero ((Path.mem_bytes_iff (by decide) _).mpr ⟨name, hMem, hByte⟩)
    exact Name.isValid_iff.mpr ⟨Path.isProper_of_mem_segments hMem hDot hDots, hLength, hZero⟩

/-- A path made of such names holds no zero byte. -/
theorem not_mem_zero_of_segments (h : path.segments = location)
    (hValid : ∀ name ∈ location, name.isValid) : 0 ∉ path.bytes := by
  rw [Path.mem_bytes_iff (by decide), h]
  rintro ⟨name, hName, hZero⟩
  exact (Name.isValid_iff.mp (hValid name hName)).2.2 hZero

/-- A path finds the directory that its names lead to. -/
theorem finds_of_leads {start : Location} {names : List Name} (hAccepts : Accepts path)
    (hStart : fs.start? path = some (start, names))
    (hLeads : Leads fs maxLinks start names links location)
    (hAt : fs.root.at? location = some node) (hDir : node.isDir) :
    fs.Finds path location node := by
  have hEntry : fs.entryAt? location = some .dir := by
    rw [entryAt?, at?, hAt, Option.map_some, (Node.entry_eq_dir_iff node).mpr hDir]
  have hStartEntry := hLeads.entryAt?_start hEntry
  obtain ⟨first, hFirst, -⟩ := exists_at?_of_entryAt? hStartEntry
  obtain ⟨trail, hTrail, -⟩ := Trail.exists_to? hFirst
  obtain ⟨⟨found, node?, slash⟩, last, hWalk, rfl, -⟩ :=
    exists_walk_of_leads hLeads hTrail hEntry path.endsInSlash
  obtain ⟨_, hFound, hFoundAt⟩ := leads_of_walk names hTrail hWalk rfl
  obtain rfl : found = location := (hFound.unique hLeads).2
  obtain rfl : last = node := Option.some_inj.mp (hFoundAt.symm.trans hAt)
  refine ⟨slash, ?_⟩
  rw [resolve_of_start? hAccepts hStart, walkFrom_of_isDir hTrail (isDir_of_to? hTrail hStartEntry)]
  exact hWalk

/-- The names of a directory lead to it from the root, however the path with these names is
spelled. -/
theorem finds_of_start? (hFree : fs.IsLinkFree) (hAccepts : Accepts path)
    (hStart : fs.start? path = some ([], location)) (hValid : ∀ name ∈ location, name.isValid)
    (hAt : fs.root.at? location = some node) (hDir : node.isDir) :
    fs.Finds path location node := by
  have hEntry : fs.entryAt? location ≠ none := by simp [entryAt?, at?, hAt]
  exact finds_of_leads hAccepts hStart (leads_of_entryAt? hFree hValid hEntry) hAt hDir

/-- The path from the root that spells the location of a directory leads there, if it is not too
long. -/
theorem finds_of_spells (hFree : fs.IsLinkFree) (hSpells : plain.Spells location)
    (hValid : ∀ name ∈ location, name.isValid) (hAt : fs.root.at? location = some node)
    (hDir : node.isDir) (hLength : plain.bytes.length ≤ maxPath) :
    fs.Finds plain location node := by
  have hAccepts : Accepts plain :=
    ⟨not_mem_zero_of_segments hSpells.segments_eq hValid, by simp [hSpells.bytes_eq], hLength⟩
  refine finds_of_start? hFree hAccepts ?_ hValid hAt hDir
  rw [start?, if_pos hSpells.isAbsolute, hSpells.segments_eq]

/-- In the root directory, the names of a directory lead to it without a slash before the first. -/
theorem finds_intercalate (hFree : fs.IsLinkFree) (hStarts : fs.StartsAt []) (hNe : location ≠ [])
    (hValid : ∀ name ∈ location, name.isValid) (hAt : fs.root.at? location = some node)
    (hDir : node.isDir) (hLength : Path.size location ≤ maxPath + 1) :
    fs.Finds ⟨[slash].intercalate location⟩ location node := by
  have hProper : ∀ name ∈ location, name.IsProper :=
    fun name hName => .of_isValid (hValid name hName)
  have hSegments : (⟨[slash].intercalate location⟩ : Path).segments = location :=
    Path.segments_intercalate (fun name hName => (hProper name hName).ne_nil)
      fun name hName => (hProper name hName).not_mem_slash
  have hAccepts : Accepts ⟨[slash].intercalate location⟩ := by
    refine ⟨not_mem_zero_of_segments hSegments hValid, fun hEmpty => ?_, ?_⟩
    · rw [show [slash].intercalate location = [] from hEmpty] at hSegments
      exact hNe hSegments.symm
    · have hSize := Path.length_intercalate hNe
      change ([slash].intercalate location).length ≤ maxPath
      omega
  refine finds_of_start? hFree hAccepts ?_ hValid hAt hDir
  rw [start?_eq (.inr hStarts), hSegments, Path.isAbsolute_intercalate hProper]
  rfl

/-- A path that is too long leads nowhere. -/
theorem resolve_of_long {ending : Ending} (hZero : 0 ∉ path.bytes)
    (hLength : maxPath < path.bytes.length) : fs.resolve ending path = .error .nameTooLong := by
  have hNe : path.bytes ≠ [] := by
    intro hEmpty
    simp [hEmpty] at hLength
  rw [resolve, if_neg (by simpa using hZero), if_neg hNe, if_pos hLength]

end ExportKit.FileSystem
