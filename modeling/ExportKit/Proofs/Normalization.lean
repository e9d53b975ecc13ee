import ExportKit.Proofs.Path

/-!
Paths without `.` and `..`. A path from the root then spells the names that lead down to a place,
and what lexical normalization does with the components of a path is a walk up and down such lists
of names.
-/
namespace ExportKit

namespace Component

/-- Where a component leads, told by names alone. Two dots take off the last name, and stay at the
root. -/
def next (location : List Name) : Component → List Name
  | .name entry => location ++ [entry]
  | .up => location.dropLast
  | .root | .here => location

/-- A component that means the same wherever it stands in a path. -/
inductive IsStep : Component → Prop
  | up : IsStep .up
  | name {name : Name} (proper : name.IsProper) : IsStep (.name name)

variable {component : Component}

/-- What is written of a component is read as that component. -/
theorem IsStep.componentOf?_bytes (h : component.IsStep) :
    Path.componentOf? (Path.componentBytes component) = some component := by
  cases h with
  | up => rfl
  | name hName => exact Path.componentOf?_of_isProper hName

/-- The bytes of such a component are not empty. -/
theorem IsStep.bytes_ne_nil (h : component.IsStep) : Path.componentBytes component ≠ [] := by
  cases h with
  | up => exact List.cons_ne_nil _ _
  | name hName => exact hName.ne_nil

theorem IsStep.not_mem_slash (h : component.IsStep) :
    Path.slash ∉ Path.componentBytes component := by
  cases h with
  | up => decide
  | name hName => exact hName.not_mem_slash

/-- The names along the way stay names of entries. -/
theorem isProper_of_mem_foldl_next {components : List Component}
    (hComponents : ∀ component ∈ components, component.IsStep) {location : List Name}
    (hLocation : ∀ name ∈ location, name.IsProper) :
    ∀ name ∈ components.foldl next location, name.IsProper := by
  induction components generalizing location with
  | nil => exact hLocation
  | cons component components ih =>
      refine ih (fun other hOther => hComponents other (List.mem_cons_of_mem _ hOther)) ?_
      cases hComponents component List.mem_cons_self with
      | up => exact fun name hName => hLocation name (List.dropLast_subset location hName)
      | name hName => simpa [next, or_imp, forall_and] using And.intro hLocation hName

/-- Names alone lead down, one after the other. -/
theorem foldl_next_names (location names : List Name) :
    (names.map .name).foldl next location = location ++ names := by
  induction names generalizing location with
  | nil => simp
  | cons name names ih => simp [next, ih]

end Component

namespace Path

open Component (IsStep)

/-- The components of a path but for the one that it may start with. -/
def steps (path : Path) : List Component := path.segments.filterMap componentOf?

/-- The path leads from the root through names alone, with one slash before each, and is the slash
alone if there are none. -/
structure Spells (path : Path) (location : List Name) : Prop where
  bytes_eq : path.bytes = slash :: [slash].intercalate location
  proper : ∀ name ∈ location, name.IsProper

variable {path : Path} {location : List Name} {components : List Component}

/-- All components but the one that a path may start with mean the same anywhere. -/
theorem isStep_of_mem_steps (path : Path) : ∀ component ∈ path.steps, component.IsStep := by
  intro component hComponent
  obtain ⟨segment, hSegment, hOf⟩ := List.mem_filterMap.mp hComponent
  rw [componentOf?] at hOf
  split at hOf
  next => cases hOf
  next hDot =>
    split at hOf
    next =>
      cases hOf
      exact .up
    next hDots =>
      cases hOf
      exact .name (isProper_of_mem_segments hSegment hDot hDots)

/-- The components of an absolute path are the root and the steps from there. -/
theorem components_of_isAbsolute (h : path.isAbsolute) : path.components = .root :: path.steps := by
  rw [components, if_pos h]
  rfl

/-- A relative path may start with a dot. -/
theorem components_of_relative (h : ¬path.isAbsolute) :
    path.components = path.steps ∨ path.components = .here :: path.steps := by
  rw [components, if_neg h]
  split
  · exact .inr rfl
  · exact .inl rfl

/-- A relative path starts at most with the directory that it is relative to. -/
theorem filter_components_of_relative (h : ¬path.isAbsolute) :
    path.components.filter (· ≠ .here) = path.steps := by
  have hSteps : path.steps.filter (· ≠ .here) = path.steps := by
    refine List.filter_eq_self.mpr fun component hComponent => ?_
    cases isStep_of_mem_steps path component hComponent <;> rfl
  rcases components_of_relative h with hEq | hEq
  · rw [hEq, hSteps]
  · rw [hEq, List.filter_cons_of_neg (by simp), hSteps]

/-! Paths made of components. -/

/-- A slash at the beginning adds nothing to what stands between slashes. -/
theorem segments_slash_cons (bytes : List UInt8) :
    (⟨slash :: bytes⟩ : Path).segments = (⟨bytes⟩ : Path).segments :=
  segments_append_slash [] bytes

/-- Names joined by slashes are found again between the slashes. -/
theorem segments_intercalate {names : List Name} (hNil : ∀ name ∈ names, name ≠ [])
    (hSlash : ∀ name ∈ names, slash ∉ name) :
    (⟨[slash].intercalate names⟩ : Path).segments = names := by
  by_cases hNames : names = []
  · rw [hNames, List.intercalate_nil, segments_nil]
  · rw [segments, List.splitOn_intercalate slash hSlash hNames]
    exact List.filter_eq_self.mpr (by simpa using hNil)

/-- Names one after the other do not begin at the root. -/
theorem isAbsolute_intercalate {names : List Name} (h : ∀ name ∈ names, name.IsProper) :
    (⟨[slash].intercalate names⟩ : Path).isAbsolute = false := by
  cases names with
  | nil => rfl
  | cons name names =>
      have hName := isAbsolute_of_isProper (h name List.mem_cons_self)
      obtain ⟨first, rest, rfl⟩ := List.exists_cons_of_ne_nil (h name List.mem_cons_self).ne_nil
      cases names with
      | nil => rwa [List.intercalate_singleton]
      | cons other names =>
          rw [List.intercalate_cons_cons]
          exact hName

/-- The last of several names comes after a slash. -/
theorem intercalate_concat {names : List Name} (hNe : names ≠ []) (last : Name) :
    [slash].intercalate (names ++ [last]) = [slash].intercalate names ++ slash :: last := by
  induction names with
  | nil => exact absurd rfl hNe
  | cons name names ih =>
      cases names with
      | nil => simp [List.intercalate]
      | cons other names =>
          have hRest := ih (List.cons_ne_nil other names)
          simp only [List.cons_append, List.intercalate_cons_cons, List.append_assoc] at hRest ⊢
          rw [hRest]

/-- Components joined by slashes are the steps of the path that they make. -/
theorem steps_intercalate (h : ∀ component ∈ components, component.IsStep) :
    (⟨[slash].intercalate (components.map componentBytes)⟩ : Path).steps = components := by
  rw [steps, segments_intercalate]
  · rw [List.filterMap_map]
    induction components with
    | nil => rfl
    | cons component components ih =>
        rw [List.filterMap_cons, Function.comp_apply,
          (h component List.mem_cons_self).componentOf?_bytes,
          ih fun other hOther => h other (List.mem_cons_of_mem _ hOther)]
  · simpa using fun component hComponent => (h component hComponent).bytes_ne_nil
  · simpa using fun component hComponent => (h component hComponent).not_mem_slash

/-- A path that is made from the root is absolute. -/
theorem isAbsolute_ofComponents (components : List Component) :
    (ofComponents (.root :: components)).isAbsolute := by
  simp [ofComponents, isAbsolute]

/-- A path that is made of a root and steps has those steps. -/
theorem steps_ofComponents (h : ∀ component ∈ components, component.IsStep) :
    (ofComponents (.root :: components)).steps = components := by
  rw [ofComponents, steps, segments_slash_cons]
  exact steps_intercalate h

theorem map_componentBytes_names (names : List Name) :
    (names.map Component.name).map componentBytes = names := by
  rw [List.map_map]
  exact List.map_id names

theorem ofComponents_names (names : List Name) :
    ofComponents (names.map .name) = ⟨[slash].intercalate names⟩ := by
  cases names with
  | nil => rfl
  | cons name names =>
      rw [ofComponents, map_componentBytes_names]
      simp

theorem ofComponents_root_names (names : List Name) :
    ofComponents (.root :: names.map .name) = ⟨slash :: [slash].intercalate names⟩ := by
  rw [ofComponents, map_componentBytes_names]

/-! Normalization. -/

/-- What is listed in reverse is the names of a location, after the root or after nothing. -/
theorem foldl_normalizeStep (start : List Component) (hStart : normalizeStep start .up = start)
    (hComponents : ∀ component ∈ components, component.IsStep) (location : List Name) :
    components.foldl normalizeStep ((location.map .name).reverse ++ start) =
      ((components.foldl Component.next location).map .name).reverse ++ start := by
  induction components generalizing location with
  | nil => rfl
  | cons component components ih =>
      -- Only two dots that find no name before them look at the start, and they leave it as it is.
      have hStep : normalizeStep ((location.map .name).reverse ++ start) component =
          ((component.next location).map .name).reverse ++ start := by
        cases hComponents component List.mem_cons_self with
        | up =>
            rcases List.eq_nil_or_concat location with rfl | ⟨above, name, rfl⟩
            · exact hStart
            · simp [normalizeStep, Component.next]
        | name => simp [normalizeStep, Component.next]
      rw [List.foldl_cons, List.foldl_cons, hStep]
      exact ih (fun other hOther => hComponents other (List.mem_cons_of_mem _ hOther)) _

/-- The normalized form of an absolute path spells the names to which its steps lead. -/
theorem normalize_of_isAbsolute (h : path.isAbsolute) :
    path.normalize = ⟨slash :: [slash].intercalate (path.steps.foldl Component.next [])⟩ := by
  have hFold := foldl_normalizeStep [.root] rfl (isStep_of_mem_steps path) []
  have hRoot : path.components.foldl normalizeStep [] = path.steps.foldl normalizeStep [.root] := by
    rw [components_of_isAbsolute h]
    rfl
  rw [normalize, hRoot]
  simp only [List.map_nil, List.reverse_nil, List.nil_append] at hFold
  rw [hFold, List.reverse_append, List.reverse_reverse, ← ofComponents_root_names]
  rfl

/-- The normalized form of a relative path spells the names to which its steps lead from nowhere. -/
theorem normalize_of_relative (h : ¬path.isAbsolute) :
    path.normalize = ⟨[slash].intercalate (path.steps.foldl Component.next [])⟩ := by
  have hFold := foldl_normalizeStep [] rfl (isStep_of_mem_steps path) []
  have hHere : path.components.foldl normalizeStep [] = path.steps.foldl normalizeStep [] := by
    rcases components_of_relative h with hEq | hEq
    · rw [hEq]
    · rw [hEq]
      rfl
  rw [normalize, hHere]
  simp only [List.map_nil, List.reverse_nil, List.append_nil] at hFold
  rw [hFold, List.reverse_reverse, ofComponents_names]

/-- What a path is normalized to is where its steps lead by names alone. -/
theorem spells_normalize (h : path.isAbsolute) :
    path.normalize.Spells (path.steps.foldl Component.next []) where
  bytes_eq := by rw [normalize_of_isAbsolute h]
  proper := Component.isProper_of_mem_foldl_next (isStep_of_mem_steps path) (by simp)

/-- The absolute form of an absolute path consists of the same components. -/
theorem absolute_of_isAbsolute (h : path.isAbsolute) (workingDir : Option Path) :
    absolute workingDir path = ofComponents (.root :: path.steps) := by
  have hNe : path.bytes ≠ [] := by
    intro hEmpty
    simp [isAbsolute, hEmpty] at h
  rw [absolute.eq_def, if_neg hNe, if_pos h, components_of_isAbsolute h]

/-- Without a working directory a relative path stays as it is. -/
theorem absolute_none (h : ¬path.isAbsolute) : absolute none path = path := by
  rw [absolute, if_neg h]
  exact ite_self path

/-- In the absolute form of a relative path the working directory stands before its steps. -/
theorem absolute_of_relative {dir : Path} (hDir : dir.isAbsolute) (hNe : path.bytes ≠ [])
    (h : ¬path.isAbsolute) :
    absolute (some dir) path = ofComponents (.root :: (dir.steps ++ path.steps)) := by
  rw [absolute, if_neg hNe, if_neg h, filter_components_of_relative h,
    components_of_isAbsolute hDir]
  rfl

namespace Spells

theorem isAbsolute (h : path.Spells location) : path.isAbsolute := by
  simp [Path.isAbsolute, h.bytes_eq]

theorem eq_ofComponents (h : path.Spells location) :
    path = ofComponents (.root :: location.map .name) := by
  obtain ⟨bytes⟩ := path
  rw [ofComponents_root_names, ← h.bytes_eq]

theorem segments_eq (h : path.Spells location) : path.segments = location := by
  rw [h.eq_ofComponents, ofComponents_root_names, segments_slash_cons]
  exact segments_intercalate (fun name hName => (h.proper name hName).ne_nil)
    fun name hName => (h.proper name hName).not_mem_slash

theorem steps_eq (h : path.Spells location) : path.steps = location.map .name := by
  rw [h.eq_ofComponents]
  exact steps_ofComponents (by simpa using fun name hName => .name (h.proper name hName))

/-- Only the slash alone spells the root. -/
theorem eq_nil_iff (h : path.Spells location) : location = [] ↔ path = ⟨[slash]⟩ := by
  constructor
  · rintro rfl
    rw [h.eq_ofComponents]
    rfl
  · rintro rfl
    exact h.segments_eq.symm.trans rfl

/-- A path that spells a location is as short as it can be. -/
theorem normalize_eq (h : path.Spells location) : path.normalize = path := by
  rw [normalize_of_isAbsolute h.isAbsolute, h.steps_eq, Component.foldl_next_names,
    List.nil_append, ← h.bytes_eq]

/-- A path that leads through names alone is its own absolute form. -/
theorem absolute_eq (h : path.Spells location) (workingDir : Option Path) :
    absolute workingDir path = path := by
  rw [absolute_of_isAbsolute h.isAbsolute, h.steps_eq, ← h.eq_ofComponents]

end Spells

/-- Normalization does not change where a path begins. -/
theorem isAbsolute_normalize (path : Path) : path.normalize.isAbsolute = path.isAbsolute := by
  cases h : path.isAbsolute with
  | true => rw [(spells_normalize h).isAbsolute]
  | false =>
    rw [normalize_of_relative (by simp [h]), isAbsolute_intercalate]
    exact Component.isProper_of_mem_foldl_next (isStep_of_mem_steps path) (by simp)

/-! Where paths lead. -/

/-- Where a path leads, told by names alone. A relative one leads on from a start. -/
def lead (start : List Name) (path : Path) : List Name :=
  path.steps.foldl Component.next (if path.isAbsolute then [] else start)

/-- A path that spells a location leads there, wherever it starts. -/
theorem Spells.lead_eq (h : path.Spells location) (start : List Name) :
    path.lead start = location := by
  rw [lead, if_pos h.isAbsolute, h.steps_eq, Component.foldl_next_names, List.nil_append]

/-- The normalized absolute form of an absolute path spells where the path leads by names alone. -/
theorem spells_of_isAbsolute (h : path.isAbsolute) (workingDir : Option Path)
    (start : List Name) : (absolute workingDir path).normalize.Spells (path.lead start) := by
  have hSpells := spells_normalize (isAbsolute_ofComponents path.steps)
  rw [steps_ofComponents (isStep_of_mem_steps path)] at hSpells
  rw [absolute_of_isAbsolute h, lead, if_pos h]
  exact hSpells

/-- The path from the root to where a path leads from the working directory. -/
theorem spells_absolute {dir : Path} (hDir : dir.isAbsolute) (hNe : path.bytes ≠ []) :
    (absolute (some dir) path).normalize.Spells (path.lead (dir.lead [])) := by
  by_cases h : path.isAbsolute
  · exact spells_of_isAbsolute h (some dir) (dir.lead [])
  · have hSteps : ∀ component ∈ dir.steps ++ path.steps, component.IsStep := by
      intro component hComponent
      rcases List.mem_append.mp hComponent with hDirStep | hStep
      · exact isStep_of_mem_steps dir component hDirStep
      · exact isStep_of_mem_steps path component hStep
    have hSpells := spells_normalize (isAbsolute_ofComponents (dir.steps ++ path.steps))
    rw [steps_ofComponents hSteps, List.foldl_append] at hSpells
    rw [absolute_of_relative hDir hNe h, lead, if_neg h, lead, if_pos hDir]
    exact hSpells

/-- A name after a path leads from where the path leads to the entry of that name. -/
theorem lead_join {name : Name} (hName : name.IsProper) (start : List Name) (path : Path) :
    (path.join ⟨name⟩).lead start = path.lead start ++ [name] := by
  have hSteps : (path.join ⟨name⟩).steps = path.steps ++ [.name name] := by
    rw [steps, segments_join hName, List.filterMap_append, List.filterMap_cons,
      componentOf?_of_isProper hName]
    rfl
  rw [lead, isAbsolute_join hName, hSteps, List.foldl_append]
  rfl

/-- How a place in a directory is shown beside the directory. -/
theorem Spells.display_concat {place : Path} {text : String} (h : path.Spells location)
    (hPlace : place.Spells (location ++ [Name.ofString text])) :
    place.display = if location = [] then "/" ++ text else path.display ++ "/" ++ text := by
  obtain ⟨bytes⟩ := path
  obtain ⟨placeBytes⟩ := place
  obtain rfl : bytes = _ := h.bytes_eq
  obtain rfl : placeBytes = _ := hPlace.bytes_eq
  split
  next hRoot =>
    rw [hRoot, List.nil_append, List.intercalate_singleton]
    have hEmpty : (⟨[]⟩ : Path).display = "" := display_ofString ""
    have hDisplay := display_append_slash [] text
    rwa [hEmpty, String.empty_append] at hDisplay
  next hNe =>
    rw [intercalate_concat hNe, ← List.cons_append, display_append_slash]

/-! Lengths. -/

theorem length_intercalate {names : List Name} (hNe : names ≠ []) :
    ([slash].intercalate names).length + 1 = size names := by
  induction names with
  | nil => exact absurd rfl hNe
  | cons name names ih =>
      cases names with
      | nil => simp [size]
      | cons other names =>
          have hRest := ih (List.cons_ne_nil other names)
          simp only [List.intercalate_cons_cons, List.length_append, List.length_singleton,
            size] at hRest ⊢
          omega

/-- The length of a path that spells a location is that of its names with a slash before each, and
one byte at the root. -/
theorem Spells.length_eq (h : path.Spells location) :
    path.bytes.length = max 1 (size location) := by
  rw [h.bytes_eq, List.length_cons]
  by_cases hNe : location = []
  · rw [hNe]
    rfl
  · have hSize := length_intercalate hNe
    omega

/-- Each segment leads on by no more than itself. -/
theorem size_foldl_next_le (segments location : List Name) :
    size ((segments.filterMap componentOf?).foldl Component.next location) ≤
      size location + size segments := by
  induction segments generalizing location with
  | nil => simp [size]
  | cons segment segments ih =>
      have hUp : size location.dropLast ≤ size location := by
        rcases List.eq_nil_or_concat location with rfl | ⟨above, name, rfl⟩ <;>
          simp [size_append]
      have hDown : size (location ++ [segment]) = size location + (segment.length + 1) :=
        size_append location [segment]
      have hCons : size (segment :: segments) = segment.length + 1 + size segments := rfl
      rw [List.filterMap_cons, componentOf?]
      by_cases hDot : segment = [dot]
      · have hRest := ih location
        simp only [if_pos hDot]
        omega
      by_cases hDots : segment = [dot, dot]
      · have hRest := ih location.dropLast
        simp only [if_neg hDot, if_pos hDots, List.foldl_cons, Component.next]
        omega
      · have hRest := ih (location ++ [segment])
        simp only [if_neg hDot, if_neg hDots, List.foldl_cons, Component.next]
        omega

/-- Normalization makes no path from the root longer. -/
theorem Spells.length_le {plain : Path} {start : List Name} (h : plain.Spells (path.lead start))
    (hAbsolute : path.isAbsolute) : plain.bytes.length ≤ path.bytes.length := by
  have hSize : size (path.lead start) ≤ size path.segments := by
    have hFold := size_foldl_next_le path.segments []
    rw [lead, if_pos hAbsolute]
    simpa [size, steps] using hFold
  obtain ⟨bytes⟩ := path
  cases bytes with
  | nil => simp [Path.isAbsolute] at hAbsolute
  | cons first rest =>
      obtain rfl : first = slash := by simpa [Path.isAbsolute] using hAbsolute
      have hSegments := size_segments_le rest
      rw [segments_slash_cons] at hSize
      rw [h.length_eq, List.length_cons]
      omega

end Path

end ExportKit
