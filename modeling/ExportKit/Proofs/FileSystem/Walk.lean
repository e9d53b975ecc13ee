import ExportKit.FileSystem.Access
import ExportKit.Proofs.FileSystem.Tree
import ExportKit.Proofs.Path

/-!
Where walks lead, told by locations alone. A walk that finds everything on its way depends on
nothing but the directories and links that it comes by.
-/
namespace ExportKit.FileSystem

open ExportKit.Path (dot)

/-- The names lead from one location to another: all of them are found, and all links are followed.
The numbers are those of the links that may be followed before and after. -/
inductive Leads (fs : FileSystem) : Nat → Location → List Name → Nat → Location → Prop
  | nil (links : Nat) (location : Location) : Leads fs links location [] links location
  | here {links links' : Nat} {location location' : Location} {rest : List Name}
      (dir : fs.entryAt? location = some .dir)
      (tail : Leads fs links location rest links' location') :
      Leads fs links location ([dot] :: rest) links' location'
  | up {links links' : Nat} {location location' : Location} {rest : List Name}
      (dir : fs.entryAt? location = some .dir)
      (tail : Leads fs links location.dropLast rest links' location') :
      Leads fs links location ([dot, dot] :: rest) links' location'
  | entry {links links' : Nat} {location location' : Location} {name : Name} {rest : List Name}
      {found : Entry} (ne_dot : name ≠ [dot]) (ne_dots : name ≠ [dot, dot])
      (length_le : name.length ≤ maxName)
      (found_eq : fs.entryAt? (location ++ [name]) = some found)
      (not_link : ∀ target, found ≠ .link target)
      (tail : Leads fs links (location ++ [name]) rest links' location') :
      Leads fs links location (name :: rest) links' location'
  | link {links links' : Nat} {location location' : Location} {name : Name} {rest : List Name}
      {target : Path} (ne_dot : name ≠ [dot]) (ne_dots : name ≠ [dot, dot])
      (length_le : name.length ≤ maxName)
      (found_eq : fs.entryAt? (location ++ [name]) = some (.link target))
      (tail : Leads fs links (if target.isAbsolute then [] else location)
        (target.segments ++ rest) links' location') :
      Leads fs (links + 1) location (name :: rest) links' location'

/-! Trails. -/

namespace Trail

variable {root : Node} {location : Location} {trail : Trail}

theorem to?_concat (root : Node) (location : Location) (name : Name) :
    to? root (location ++ [name]) = (to? root location).bind fun trail => trail.child? root name := by
  simp [to?, List.foldlM_append]

theorem child?_node (h : to? root location = some trail) (name : Name) :
    (trail.node root).child? name = root.at? (location ++ [name]) := by
  rw [Node.at?_concat, (node_of_to? h).2]
  rfl

theorem to?_of_child? {name : Name} {child : Node} (h : to? root location = some trail)
    (hChild : (trail.node root).child? name = some child) :
    to? root (location ++ [name]) = some ((name, child) :: trail) := by
  rw [to?_concat, h, Option.bind_some, Trail.child?, hChild]
  rfl

/-- One step back on a trail is the trail to the directory above. -/
theorem to?_dropLast (h : to? root location = some trail) :
    to? root location.dropLast = some trail.tail := by
  rcases List.eq_nil_or_concat location with rfl | ⟨above, name, rfl⟩
  · obtain rfl : [] = trail := by simpa [to?] using h
    rfl
  · rw [List.concat_eq_append] at h ⊢
    rw [to?_concat, Option.bind_eq_some_iff] at h
    obtain ⟨before, hBefore, hTrail⟩ := h
    rw [Trail.child?, Option.map_eq_some_iff] at hTrail
    obtain ⟨child, -, rfl⟩ := hTrail
    rw [List.dropLast_concat, hBefore]
    rfl

/-- A link is followed from the root or from the directory that it is in. -/
theorem to?_target (h : to? root location = some trail) (target : Path) :
    to? root (if target.isAbsolute then [] else location) =
      some (if target.isAbsolute then [] else trail) := by
  split
  · rfl
  · exact h

/-- Each node below the end of a trail is reached by leading the trail on. -/
theorem exists_foldlM {names : List Name} {node : Node} (trail : Trail)
    (h : (trail.node root).at? names = some node) :
    ∃ last, names.foldlM (child? root) trail = some last ∧ last.node root = node := by
  induction names generalizing trail with
  | nil => exact ⟨trail, rfl, by simpa [Node.at?] using h⟩
  | cons name rest ih =>
      rw [Node.at?, Option.bind_eq_some_iff] at h
      obtain ⟨child, hChild, hRest⟩ := h
      obtain ⟨last, hLast, hNode⟩ := ih ((name, child) :: trail) hRest
      refine ⟨last, ?_, hNode⟩
      rw [List.foldlM_cons, Trail.child?, hChild]
      exact hLast

/-- There is a trail to every location where something stands. -/
theorem exists_to? {node : Node} (h : root.at? location = some node) :
    ∃ trail, to? root location = some trail ∧ trail.node root = node :=
  exists_foldlM [] h

end Trail

/-- What stands at a location is the node at the end of the trail to it. -/
theorem entryAt?_of_to? {fs : FileSystem} {location : Location} {trail : Trail}
    (h : Trail.to? fs.root location = some trail) :
    fs.entryAt? location = some (trail.node fs.root).entry := by
  rw [entryAt?, at?, (Trail.node_of_to? h).2, Option.map_some]

/-- The directory that a directory is in, or the root itself. -/
theorem entryAt?_dropLast {fs : FileSystem} {location : Location}
    (h : fs.entryAt? location = some .dir) : fs.entryAt? location.dropLast = some .dir := by
  rcases List.eq_nil_or_concat location with rfl | ⟨above, name, rfl⟩
  · exact h
  · rw [List.concat_eq_append] at h ⊢
    rw [List.dropLast_concat]
    exact entryAt?_of_append (List.cons_ne_nil name []) (by simp [h])

theorem entryAt?_child {fs : FileSystem} {location : Location} {trail : Trail}
    (h : Trail.to? fs.root location = some trail) (name : Name) :
    fs.entryAt? (location ++ [name]) =
      ((trail.node fs.root).child? name).map Node.entry := by
  rw [Trail.child?_node h, entryAt?, at?]

theorem isDir_of_to? {fs : FileSystem} {location : Location} {trail : Trail}
    (h : Trail.to? fs.root location = some trail) (hDir : fs.entryAt? location = some .dir) :
    (trail.node fs.root).isDir := by
  rw [entryAt?_of_to? h, Option.some_inj] at hDir
  exact (Node.entry_eq_dir_iff _).mp hDir

/-! Walks that go on after the names of a lead. -/

section Walk

variable {fs : FileSystem} {ending : Ending} {slash : Bool}

/-- One step of a walk along an ordinary name that is not the last one. -/
theorem walk_cons {links : Nat} {trail : Trail} {name : Name} {rest : List Name}
    (hDir : (trail.node fs.root).isDir) (hDot : name ≠ [dot]) (hDots : name ≠ [dot, dot])
    (hLength : name.length ≤ maxName) (hRest : rest ≠ []) :
    walk fs.root ending links trail (name :: rest) slash =
      match (trail.node fs.root).child? name with
      | none => .error .notFound
      | some (.link target) =>
        match links with
        | 0 => .error .tooManyLinks
        | links + 1 =>
          walk fs.root ending links (if target.isAbsolute then [] else trail)
            (target.segments ++ rest) slash
      | some node => walk fs.root ending links ((name, node) :: trail) rest slash := by
  have hShort : ¬maxName < name.length := Nat.not_lt.mpr hLength
  rw [walk]
  cases hFound : (trail.node fs.root).child? name with
  | none => simp [hDir, hDot, hDots, hRest, hShort]
  | some node =>
      cases node with
      | link target => cases links <;> simp [hDir, hDot, hDots, hRest, hShort]
      | file | dir | device => simp [hDir, hDot, hDots, hRest, hShort]

/-- A walk goes to the end of names that lead somewhere, and from there along those that
follow. -/
theorem walk_append_of_leads {links links' : Nat} {location location' : Location}
    {names : List Name} (h : Leads fs links location names links' location') {trail : Trail}
    (hTrail : Trail.to? fs.root location = some trail) {rest : List Name} (hRest : rest ≠ []) :
    ∃ trail', Trail.to? fs.root location' = some trail' ∧
      walk fs.root ending links trail (names ++ rest) slash =
        walk fs.root ending links' trail' rest slash := by
  induction h generalizing trail with
  | nil => exact ⟨trail, hTrail, rfl⟩
  | here hDir _ ih =>
      obtain ⟨trail', hTrail', hWalk⟩ := ih hTrail
      refine ⟨trail', hTrail', ?_⟩
      rw [List.cons_append, walk, ← hWalk]
      simp [isDir_of_to? hTrail hDir]
  | up hDir _ ih =>
      obtain ⟨trail', hTrail', hWalk⟩ := ih (Trail.to?_dropLast hTrail)
      refine ⟨trail', hTrail', ?_⟩
      rw [List.cons_append, walk, ← hWalk]
      simp [isDir_of_to? hTrail hDir]
  | @entry links links' location location' name names found hDot hDots hLength hFound hLink _ ih =>
      rw [entryAt?_child hTrail, Option.map_eq_some_iff] at hFound
      obtain ⟨child, hChild, rfl⟩ := hFound
      obtain ⟨trail', hTrail', hWalk⟩ := ih (Trail.to?_of_child? hTrail hChild)
      refine ⟨trail', hTrail', ?_⟩
      rw [List.cons_append, walk_cons (Node.isDir_of_child? hChild) hDot hDots hLength
        (by simp [hRest]), hChild, ← hWalk]
      cases child with
      | link target => exact absurd rfl (hLink target)
      | file | dir | device => rfl
  | @link links links' location location' name names target hDot hDots hLength hFound _ ih =>
      rw [entryAt?_child hTrail, Option.map_eq_some_iff] at hFound
      obtain ⟨child, hChild, hEntry⟩ := hFound
      obtain rfl : child = .link target := Node.eq_of_entry hEntry Bool.false_ne_true
      obtain ⟨trail', hTrail', hWalk⟩ := ih (Trail.to?_target hTrail target)
      refine ⟨trail', hTrail', ?_⟩
      rw [List.cons_append, walk_cons (Node.isDir_of_child? hChild) hDot hDots hLength
        (by simp [hRest]), hChild, ← hWalk, List.append_assoc]

/-- One step of a walk that follows links, along an ordinary name. -/
theorem walk_follow_cons {links : Nat} {trail : Trail} {name : Name} (rest : List Name)
    (hDir : (trail.node fs.root).isDir) (hDot : name ≠ [dot]) (hDots : name ≠ [dot, dot]) :
    walk fs.root .follow links trail (name :: rest) slash =
      if maxName < name.length then .error .nameTooLong
      else
        match (trail.node fs.root).child? name with
        | none =>
          if rest = [] then .ok ⟨trail.location ++ [name], none, slash⟩ else .error .notFound
        | some (.link target) =>
          match links with
          | 0 => .error .tooManyLinks
          | links + 1 =>
            walk fs.root .follow links (if target.isAbsolute then [] else trail)
              (target.segments ++ rest) (slash || decide (rest = []) && target.endsInSlash)
        | some node =>
          if rest = [] then arrive .follow (trail.location ++ [name]) node slash
          else walk fs.root .follow links ((name, node) :: trail) rest slash := by
  rw [walk]
  cases hFound : (trail.node fs.root).child? name with
  | none => simp [hDir, hDot, hDots]
  | some node =>
      cases node with
      | link target => cases links <;> simp [hDir, hDot, hDots]
      | file | dir | device => simp [hDir, hDot, hDots]

/-- Only in a directory does a walk take a further step. -/
theorem isDir_of_walk_cons {links : Nat} {trail : Trail} {name : Name} {rest : List Name}
    {spot : Spot} (h : walk fs.root ending links trail (name :: rest) slash = .ok spot) :
    (trail.node fs.root).isDir := by
  cases hDir : (trail.node fs.root).isDir with
  | true => rfl
  | false =>
      rw [walk] at h
      simp [hDir] at h

/-- The last step of a walk that ends at an entry that is no link. -/
theorem eq_of_arrive {location : Location} {node : Node} {spot : Spot}
    (h : arrive ending location node slash = .ok spot) : spot = ⟨location, some node, slash⟩ := by
  rw [arrive] at h
  split at h
  · cases h
  · exact (Except.ok.inj h).symm

/-- A walk from a directory is one from the end of the trail to it. -/
theorem walkFrom_of_isDir {start : Location} {names : List Name} {trail : Trail}
    (hTrail : Trail.to? fs.root start = some trail) (hDir : (trail.node fs.root).isDir) :
    walkFrom fs.root ending start names slash =
      walk fs.root ending maxLinks trail names slash := by
  rw [walkFrom, hTrail]
  exact if_pos hDir

/-- Names cannot be looked up but in a directory. -/
theorem walkFrom_cons {start : Location} {name : Name} {rest : List Name} {trail : Trail}
    (hTrail : Trail.to? fs.root start = some trail) :
    walkFrom fs.root ending start (name :: rest) slash =
      walk fs.root ending maxLinks trail (name :: rest) slash := by
  cases hDir : (trail.node fs.root).isDir with
  | true => exact walkFrom_of_isDir hTrail hDir
  | false =>
      rw [walkFrom, hTrail, walk]
      simp [hDir]

/-- Only from a directory can a walk start, and then from the trail to it. -/
theorem exists_walk_of_walkFrom {start : Location} {names : List Name} {spot : Spot}
    (h : walkFrom fs.root ending start names slash = .ok spot) :
    ∃ trail, Trail.to? fs.root start = some trail ∧ (trail.node fs.root).isDir ∧
      walk fs.root ending maxLinks trail names slash = .ok spot := by
  rw [walkFrom] at h
  cases hTrail : Trail.to? fs.root start with
  | none => simp [hTrail] at h
  | some trail =>
      simp only [hTrail] at h
      split at h
      next hDir => exact ⟨trail, rfl, hDir, h⟩
      next => cases h

/-- Names along which a walk finds something, links followed, lead to what it finds. The recursion
is that of the walk. -/
theorem leads_of_walk {links : Nat} {location : Location} {trail : Trail} {slash : Bool}
    (names : List Name) {spot : Spot} {node : Node}
    (hTrail : Trail.to? fs.root location = some trail)
    (h : walk fs.root .follow links trail names slash = .ok spot)
    (hNode : spot.node? = some node) :
    ∃ links', Leads fs links location names links' spot.location ∧
      fs.root.at? spot.location = some node := by
  obtain ⟨hLocation, hAt⟩ := Trail.node_of_to? hTrail
  cases names with
  | nil =>
      rw [walk, Except.ok.injEq] at h
      subst h
      obtain rfl : trail.node fs.root = node := by simpa using hNode
      exact ⟨links, hLocation ▸ .nil links _, hLocation ▸ hAt⟩
  | cons name rest =>
      have hDir := isDir_of_walk_cons h
      have hEntry : fs.entryAt? location = some .dir := by
        rw [entryAt?_of_to? hTrail, (Node.entry_eq_dir_iff _).mpr hDir]
      by_cases hDot : name = [dot]
      · subst hDot
        rw [walk] at h
        simp only [hDir, Bool.not_true, Bool.false_eq_true, if_false, if_true] at h
        obtain ⟨links', hLeads, hAt⟩ := leads_of_walk rest hTrail h hNode
        exact ⟨links', .here hEntry hLeads, hAt⟩
      by_cases hDots : name = [dot, dot]
      · subst hDots
        rw [walk] at h
        simp only [hDir, hDot, Bool.not_true, Bool.false_eq_true, if_false, if_true] at h
        obtain ⟨links', hLeads, hAt⟩ := leads_of_walk rest (Trail.to?_dropLast hTrail) h hNode
        exact ⟨links', .up hEntry hLeads, hAt⟩
      have hFound := entryAt?_child hTrail name
      rw [walk_follow_cons rest hDir hDot hDots] at h
      by_cases hLength : maxName < name.length
      · simp [hLength] at h
      rw [if_neg hLength] at h
      replace hLength := Nat.not_lt.mp hLength
      cases hChild : (trail.node fs.root).child? name with
      | none =>
          rw [hChild] at h
          by_cases hRest : rest = []
          · simp only [hRest, if_true, Except.ok.injEq] at h
            simp [← h] at hNode
          · simp [hRest] at h
      | some child =>
          rw [hChild] at h hFound
          have hChildTrail := Trail.to?_of_child? hTrail hChild
          by_cases hLink : ∃ target, child = .link target
          · obtain ⟨target, rfl⟩ := hLink
            cases links with
            | zero => simp at h
            | succ links =>
                obtain ⟨links', hLeads, hAt⟩ :=
                  leads_of_walk _ (Trail.to?_target hTrail target) h hNode
                exact ⟨links', .link hDot hDots hLength hFound hLeads, hAt⟩
          · have hEntryLink : ∀ target, child.entry ≠ .link target := by
              exact fun target hEq => hLink ⟨target, Node.eq_of_entry hEq Bool.false_ne_true⟩
            have hStep : (if rest = [] then arrive .follow (trail.location ++ [name]) child slash
                else walk fs.root .follow links ((name, child) :: trail) rest slash) = .ok spot := by
              cases child with
              | link target => exact absurd ⟨target, rfl⟩ hLink
              | file | dir | device => exact h
            by_cases hRest : rest = []
            · subst hRest
              have hSpot := eq_of_arrive hStep
              rw [hLocation] at hSpot
              subst hSpot
              obtain rfl : child = node := by simpa using hNode
              refine ⟨links, .entry hDot hDots hLength hFound hEntryLink (.nil links _), ?_⟩
              rw [← Trail.child?_node hTrail, hChild]
            · rw [if_neg hRest] at hStep
              obtain ⟨links', hLeads, hAt⟩ := leads_of_walk rest hChildTrail hStep hNode
              exact ⟨links', .entry hDot hDots hLength hFound hEntryLink hLeads, hAt⟩
termination_by (links, names.length)

/-- A walk along names that lead to a directory finds it. -/
theorem exists_walk_of_leads {links links' : Nat} {location location' : Location}
    {names : List Name} (h : Leads fs links location names links' location') {trail : Trail}
    (hTrail : Trail.to? fs.root location = some trail)
    (hDir : fs.entryAt? location' = some .dir) (slash : Bool) :
    ∃ spot node, walk fs.root .follow links trail names slash = .ok spot ∧
      spot.node? = some node ∧ node.isDir := by
  induction h generalizing trail slash with
  | nil =>
      rw [walk]
      exact ⟨_, _, rfl, rfl, isDir_of_to? hTrail hDir⟩
  | here hHere _ ih =>
      rw [walk]
      simpa [isDir_of_to? hTrail hHere] using ih hTrail hDir slash
  | up hHere _ ih =>
      rw [walk]
      simpa [isDir_of_to? hTrail hHere] using ih (Trail.to?_dropLast hTrail) hDir slash
  | @entry links links' location location' name rest found hDot hDots hLength hFound hLink hTail ih =>
      rw [entryAt?_child hTrail, Option.map_eq_some_iff] at hFound
      obtain ⟨child, hChild, rfl⟩ := hFound
      have hChildTrail := Trail.to?_of_child? hTrail hChild
      have hStep : walk fs.root .follow links trail (name :: rest) slash =
          if rest = [] then arrive .follow (trail.location ++ [name]) child slash
          else walk fs.root .follow links ((name, child) :: trail) rest slash := by
        rw [walk_follow_cons rest (Node.isDir_of_child? hChild) hDot hDots,
          if_neg (Nat.not_lt.mpr hLength), hChild]
        cases child with
        | link target => exact absurd rfl (hLink target)
        | file | dir | device => rfl
      rw [hStep]
      by_cases hRest : rest = []
      · subst hRest
        cases hTail
        have hChildDir : child.isDir := isDir_of_to? hChildTrail hDir
        rw [if_pos rfl, arrive, if_neg (by simp [hChildDir])]
        exact ⟨_, _, rfl, rfl, hChildDir⟩
      · rw [if_neg hRest]
        exact ih hChildTrail hDir slash
  | @link links links' location location' name rest target hDot hDots hLength hFound _ ih =>
      rw [entryAt?_child hTrail, Option.map_eq_some_iff] at hFound
      obtain ⟨child, hChild, hEntry⟩ := hFound
      obtain rfl : child = .link target := Node.eq_of_entry hEntry Bool.false_ne_true
      rw [walk_follow_cons rest (Node.isDir_of_child? hChild) hDot hDots,
        if_neg (Nat.not_lt.mpr hLength), hChild]
      exact ih (Trail.to?_target hTrail target) hDir _

end Walk

namespace Leads

variable {fs : FileSystem} {links links' : Nat} {location location' : Location}

/-- What leads along some names and then others leads along each of them. -/
theorem exists_of_append {first second : List Name}
    (h : Leads fs links location (first ++ second) links' location') :
    ∃ between middle, Leads fs links location first between middle ∧
      Leads fs between middle second links' location' := by
  generalize hNames : first ++ second = names at h
  induction h generalizing first with
  | nil links location =>
      obtain ⟨rfl, rfl⟩ := List.append_eq_nil_iff.mp hNames
      exact ⟨links, location, .nil _ _, .nil _ _⟩
  | @here links links' location location' rest hDir hTail ih =>
      cases first with
      | nil =>
          obtain rfl : second = _ := hNames
          exact ⟨links, location, .nil _ _, .here hDir hTail⟩
      | cons name first =>
          obtain ⟨rfl, hRest⟩ := List.cons.inj hNames
          obtain ⟨between, middle, hFirst, hSecond⟩ := ih hRest
          exact ⟨between, middle, .here hDir hFirst, hSecond⟩
  | @up links links' location location' rest hDir hTail ih =>
      cases first with
      | nil =>
          obtain rfl : second = _ := hNames
          exact ⟨links, location, .nil _ _, .up hDir hTail⟩
      | cons name first =>
          obtain ⟨rfl, hRest⟩ := List.cons.inj hNames
          obtain ⟨between, middle, hFirst, hSecond⟩ := ih hRest
          exact ⟨between, middle, .up hDir hFirst, hSecond⟩
  | @entry links links' location location' name rest found hDot hDots hLength hFound hLink hTail ih =>
      cases first with
      | nil =>
          obtain rfl : second = _ := hNames
          exact ⟨links, location, .nil _ _, .entry hDot hDots hLength hFound hLink hTail⟩
      | cons name first =>
          obtain ⟨rfl, hRest⟩ := List.cons.inj hNames
          obtain ⟨between, middle, hFirst, hSecond⟩ := ih hRest
          exact ⟨between, middle, .entry hDot hDots hLength hFound hLink hFirst, hSecond⟩
  | @link links links' location location' name rest target hDot hDots hLength hFound hTail ih =>
      cases first with
      | nil =>
          obtain rfl : second = _ := hNames
          exact ⟨links + 1, location, .nil _ _, .link hDot hDots hLength hFound hTail⟩
      | cons name first =>
          obtain ⟨rfl, hRest⟩ := List.cons.inj hNames
          obtain ⟨between, middle, hFirst, hSecond⟩ :=
            @ih (target.segments ++ first) ((List.append_assoc ..).trans (congrArg _ hRest))
          exact ⟨between, middle, .link hDot hDots hLength hFound hFirst, hSecond⟩

/-- The names determine where they lead. -/
theorem unique {names : List Name} {links₁ links₂ : Nat} {location₁ location₂ : Location}
    (h₁ : Leads fs links location names links₁ location₁)
    (h₂ : Leads fs links location names links₂ location₂) :
    links₁ = links₂ ∧ location₁ = location₂ := by
  induction h₁ with
  | nil =>
      cases h₂
      exact ⟨rfl, rfl⟩
  | here _ _ ih =>
      cases h₂ with
      | here _ hTail => exact ih hTail
      | entry hDot => exact absurd rfl hDot
      | link hDot => exact absurd rfl hDot
  | up _ _ ih =>
      cases h₂ with
      | up _ hTail => exact ih hTail
      | entry _ hDots => exact absurd rfl hDots
      | link _ hDots => exact absurd rfl hDots
  | entry hDot hDots _ hFound hLink _ ih =>
      cases h₂ with
      | here => exact absurd rfl hDot
      | up => exact absurd rfl hDots
      | entry _ _ _ _ _ hTail => exact ih hTail
      | link _ _ _ hOther =>
          rw [hFound, Option.some_inj] at hOther
          exact absurd hOther (hLink _)
  | link hDot hDots _ hFound _ ih =>
      cases h₂ with
      | here => exact absurd rfl hDot
      | up => exact absurd rfl hDots
      | entry _ _ _ hOther hLink =>
          rw [hFound, Option.some_inj] at hOther
          exact absurd hOther.symm (hLink _)
      | link _ _ _ hOther hTail =>
          rw [hFound, Option.some_inj, Entry.link.injEq] at hOther
          subst hOther
          exact ih hTail

/-- Ways that follow on each other make one way. -/
theorem trans {between : Nat} {middle : Location} {first second : List Name}
    (hFirst : Leads fs links location first between middle)
    (hSecond : Leads fs between middle second links' location') :
    Leads fs links location (first ++ second) links' location' := by
  induction hFirst with
  | nil => exact hSecond
  | here hDir _ ih => exact .here hDir (ih hSecond)
  | up hDir _ ih => exact .up hDir (ih hSecond)
  | entry hDot hDots hLength hFound hLink _ ih =>
      exact .entry hDot hDots hLength hFound hLink (ih hSecond)
  | link hDot hDots hLength hFound _ ih =>
      have hTail := ih hSecond
      rw [List.append_assoc] at hTail
      exact .link hDot hDots hLength hFound hTail

/-- Whatever leads to a directory starts at one. -/
theorem entryAt?_start {names : List Name} (h : Leads fs links location names links' location')
    (hDir : fs.entryAt? location' = some .dir) : fs.entryAt? location = some .dir := by
  cases h with
  | nil => exact hDir
  | here hStart => exact hStart
  | up hStart => exact hStart
  | @entry _ _ _ _ name _ _ _ _ _ hFound =>
      exact entryAt?_of_append (List.cons_ne_nil name []) (by simp [hFound])
  | @link _ _ _ _ name _ _ _ _ _ hFound =>
      exact entryAt?_of_append (List.cons_ne_nil name []) (by simp [hFound])

/-- Dots lead to directories only. -/
theorem ne_dots_of_last {before : List Name} {last : Name}
    (h : Leads fs links location (before ++ [last]) links' location')
    (hDir : fs.entryAt? location' ≠ some .dir) : last ≠ [dot] ∧ last ≠ [dot, dot] := by
  obtain ⟨between, middle, -, hLast⟩ := h.exists_of_append
  cases hLast with
  | here hMiddle hTail =>
      cases hTail
      exact absurd hMiddle hDir
  | up hMiddle hTail =>
      cases hTail
      exact absurd (entryAt?_dropLast hMiddle) hDir
  | entry hDot hDots => exact ⟨hDot, hDots⟩
  | link hDot hDots => exact ⟨hDot, hDots⟩

/-- A name that leads somewhere is that of an entry. -/
theorem entryAt?_singleton {name : Name} (hName : name.IsProper)
    (h : Leads fs links location [name] links' location') :
    fs.entryAt? (location ++ [name]) ≠ none ∧ name.length ≤ maxName := by
  cases h with
  | here => exact absurd rfl hName.ne_dot
  | up => exact absurd rfl hName.ne_dots
  | entry _ _ hLength hFound => exact ⟨by simp [hFound], hLength⟩
  | link _ _ hLength hFound => exact ⟨by simp [hFound], hLength⟩

/-- A name leads to its entry, unless that is a link. -/
theorem eq_of_singleton {name : Name} (hName : name.IsProper)
    (h : Leads fs links location [name] links' location')
    (hLink : ∀ target, fs.entryAt? (location ++ [name]) ≠ some (.link target)) :
    links = links' ∧ location' = location ++ [name] := by
  cases h with
  | here => exact absurd rfl hName.ne_dot
  | up => exact absurd rfl hName.ne_dots
  | link _ _ _ hFound => exact absurd hFound (hLink _)
  | entry _ _ _ _ _ hTail =>
      cases hTail
      exact ⟨rfl, rfl⟩

end Leads

/-- A link from a directory to an entry beside it that is neither a directory nor a link. -/
def IsDeadEnd (fs : FileSystem) (dir : Location) (target : Path) : Prop :=
  ∃ name : Name, target.isAbsolute = false ∧ target.segments = [name] ∧ name ≠ [dot] ∧
    name ≠ [dot, dot] ∧ ∀ found, fs.entryAt? (dir ++ [name]) = some found →
      found ≠ .dir ∧ ∀ other, found ≠ .link other

/-- All directories are kept, and all links that may lead to one. -/
structure KeepsDirs (fs fs' : FileSystem) : Prop where
  dir : ∀ location, fs.entryAt? location = some .dir → fs'.entryAt? location = some .dir
  link : ∀ dir name target, fs.entryAt? (dir ++ [name]) = some (.link target) →
    fs'.entryAt? (dir ++ [name]) = some (.link target) ∨ IsDeadEnd fs dir target

/-- What leads to a directory still does so when directories and links are kept. -/
theorem Leads.of_keepsDirs {fs fs' : FileSystem} (hKeeps : KeepsDirs fs fs') {links links' : Nat}
    {location location' : Location} {names : List Name}
    (h : Leads fs links location names links' location')
    (hDir : fs.entryAt? location' = some .dir) :
    Leads fs' links location names links' location' := by
  induction h with
  | nil => exact .nil _ _
  | here hStart _ ih => exact .here (hKeeps.dir _ hStart) (ih hDir)
  | up hStart _ ih => exact .up (hKeeps.dir _ hStart) (ih hDir)
  | entry hDot hDots hLength _ _ hTail ih =>
      have hFound := hKeeps.dir _ (hTail.entryAt?_start hDir)
      exact .entry hDot hDots hLength hFound (by simp) (ih hDir)
  | @link links links' location location' name rest target hDot hDots hLength hFound hTail ih =>
      rcases hKeeps.link _ _ _ hFound with
        hKept | ⟨other, hRelative, hSegments, hOtherDot, hOtherDots, hOther⟩
      · exact .link hDot hDots hLength hKept (ih hDir)
      · rw [hRelative, hSegments] at hTail
        cases hTail with
        | here => exact absurd rfl hOtherDot
        | up => exact absurd rfl hOtherDots
        | entry _ _ _ hFoundOther _ hRest =>
            have hOtherDir := hRest.entryAt?_start hDir
            rw [hFoundOther, Option.some_inj] at hOtherDir
            exact absurd hOtherDir (hOther _ hFoundOther).1
        | link _ _ _ hFoundOther => exact absurd rfl ((hOther _ hFoundOther).2 _)

end ExportKit.FileSystem
