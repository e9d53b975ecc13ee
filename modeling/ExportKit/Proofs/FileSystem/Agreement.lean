import ExportKit.Proofs.FileSystem.Effects
import ExportKit.Proofs.FileSystem.Listing

/-!
Two file systems that hold the same below two places. A path to these places that is followed by
names shows the same in both, whatever else they hold. Only the number of links that the path leaves
to be followed may still make a difference, where another link comes after it.
-/
namespace ExportKit

namespace Node

/-- What is seen of a node without a look at the entries that it holds. -/
def view (node : Node) : Entry × List Name := (node.entry, node.names)

theorem isDir_congr {node node' : Node} (h : node'.entry = node.entry) :
    node'.isDir = node.isDir := by
  rw [Bool.eq_iff_iff, ← entry_eq_dir_iff, ← entry_eq_dir_iff, h]

/-- Directories with entries of the same names list the same names. -/
theorem names_congr {node node' : Node}
    (h : ∀ name, node'.child? name ≠ none ↔ node.child? name ≠ none) :
    node'.names = node.names := by
  have hNodup (node : Node) : node.names.Nodup :=
    node.pairwise_names.imp fun hLt hEq => by simp [hEq] at hLt
  have hPerm : node'.names.Perm node.names := by
    rw [List.perm_ext_iff_of_nodup (hNodup node') (hNodup node)]
    intro name
    rw [mem_names, mem_names, h]
  apply hPerm.eq_of_pairwise _ (pairwise_names node') (pairwise_names node)
  intro a b _ _ hLt hGt
  rw [@Std.OrientedCmp.eq_swap _ compare _ a b, hGt] at hLt
  cases hLt

end Node

namespace FileSystem

variable {fs fs' fs'' : FileSystem} {path : Path} {name other : Name} {target : Path}
  {links links' : Nat} {dir location location' location'' : Location} {node node' : Node}

/-- Two file systems hold the same entries at and below two places. -/
def AgreeBelow (fs : FileSystem) (location : Location) (fs' : FileSystem) (location' : Location) :
    Prop :=
  ∀ below, fs'.entryAt? (location' ++ below) = fs.entryAt? (location ++ below)

namespace AgreeBelow

theorem refl (fs : FileSystem) (location : Location) : AgreeBelow fs location fs location :=
  fun _ => rfl

theorem trans (first : AgreeBelow fs location fs' location')
    (second : AgreeBelow fs' location' fs'' location'') :
    AgreeBelow fs location fs'' location'' :=
  fun below => (second below).trans (first below)

theorem append (h : AgreeBelow fs location fs' location') (below : Location) :
    AgreeBelow fs (location ++ below) fs' (location' ++ below) := by
  intro further
  rw [List.append_assoc, List.append_assoc, h]

theorem entry_eq (h : AgreeBelow fs location fs' location') :
    fs'.entryAt? location' = fs.entryAt? location := by
  have hSelf := h []
  rwa [List.append_nil, List.append_nil] at hSelf

theorem of_at? (h : fs.at? location = some node) (h' : fs'.at? location' = some node) :
    AgreeBelow fs location fs' location' := by
  rw [FileSystem.at?] at h h'
  intro below
  rw [entryAt?, entryAt?, FileSystem.at?, FileSystem.at?, Node.at?_append, Node.at?_append, h, h']

/-- Where nothing changed below a place, it agrees with itself before. -/
theorem of_prefix (h : ∀ other, location <+: other → fs'.entryAt? other = fs.entryAt? other) :
    AgreeBelow fs location fs' location :=
  fun below => h _ (List.prefix_append location below)

end AgreeBelow

/-! Paths that are refused. -/

/-- Why a path is refused before it is walked along, if it is. -/
def refusal? (path : Path) : Option Fault :=
  if path.bytes.contains 0 then some .zeroByte
  else if path.bytes = [] then some .notFound
  else if maxPath < path.bytes.length then some .nameTooLong
  else none

/-- A path that is not refused for its spelling is one that is looked at. -/
theorem accepts_of_refusal? (h : refusal? path = none) : Accepts path := by
  rw [refusal?] at h
  split at h
  next => cases h
  next hZero =>
    split at h
    next => cases h
    next hEmpty =>
      split at h
      next => cases h
      next hLength => exact ⟨by simpa using hZero, hEmpty, Nat.not_lt.mp hLength⟩

theorem refusal?_of_accepts (h : Accepts path) : refusal? path = none := by
  rw [refusal?, if_neg (by simpa using h.not_mem_zero), if_neg h.ne_nil,
    if_neg (Nat.not_lt.mpr h.length_le)]

/-- No file system makes a difference to a path that is refused. -/
theorem resolve_of_refusal? {fault : Fault} (h : refusal? path = some fault) (fs : FileSystem)
    (ending : Ending) : fs.resolve ending path = .error fault := by
  rw [refusal?] at h
  rw [resolve]
  split at h
  next hZero =>
    obtain rfl := Option.some_inj.mp h
    rw [if_pos hZero]
  next hZero =>
    rw [if_neg hZero]
    split at h
    next hEmpty =>
      obtain rfl := Option.some_inj.mp h
      rw [if_pos hEmpty]
    next hEmpty =>
      rw [if_neg hEmpty]
      split at h
      next hLength =>
        obtain rfl := Option.some_inj.mp h
        rw [if_pos hLength]
      next => cases h

/-! What is seen of entries. -/

def found : Option Node → Except Fault Node
  | some node => .ok node
  | none => .error .notFound

theorem status_of_resolve {spot : Spot} (h : fs.resolve .follow path = .ok spot) :
    fs.status path = found spot.node? := by
  rw [status, h]
  rfl

theorem status_of_error {fault : Fault} (h : fs.resolve .follow path = .error fault) :
    fs.status path = .error fault := by
  rw [status, h]
  rfl

theorem entryAt?_child_of_at? (h : fs.at? location = some node) (name : Name) :
    fs.entryAt? (location ++ [name]) = (node.child? name).map Node.entry := by
  rw [FileSystem.at?] at h
  rw [entryAt?, FileSystem.at?, Node.at?_concat, h, Option.bind_some]

/-- Places below which the same is held look the same. -/
theorem AgreeBelow.view_eq (h : AgreeBelow fs location fs' location')
    (hNode : fs.at? location = some node) (hNode' : fs'.at? location' = some node') :
    node'.view = node.view := by
  have hEntry := h.entry_eq
  rw [entryAt?, entryAt?, hNode, hNode', Option.map_some, Option.map_some, Option.some_inj] at hEntry
  have hNames : node'.names = node.names := by
    apply Node.names_congr
    intro name
    have hChild := h [name]
    rw [entryAt?_child_of_at? hNode, entryAt?_child_of_at? hNode'] at hChild
    rw [ne_eq, ne_eq, ← Option.map_eq_none_iff, hChild, Option.map_eq_none_iff]
  rw [Node.view, Node.view, hEntry, hNames]

/-- What agrees below two places looks the same at both. -/
theorem AgreeBelow.map_view_found (h : AgreeBelow fs location fs' location') :
    (found (fs'.at? location')).map Node.view = (found (fs.at? location)).map Node.view := by
  have hEntry := h.entry_eq
  rw [entryAt?, entryAt?] at hEntry
  cases hNode : fs.at? location with
  | none =>
      rw [hNode, Option.map_none, Option.map_eq_none_iff] at hEntry
      rw [hEntry]
  | some node =>
      rw [hNode, Option.map_some, Option.map_eq_some_iff] at hEntry
      obtain ⟨node', hNode', -⟩ := hEntry
      rw [hNode', found, found, Except.map, Except.map, h.view_eq hNode hNode']

/-- A path leads to something of the same look in two file systems, or is refused in both for the
same reason. -/
def LooksSame (fs fs' : FileSystem) (path : Path) : Prop :=
  (fs'.status path).map Node.view = (fs.status path).map Node.view

namespace LooksSame

/-- A path that is refused for its spelling is refused in every file system. -/
theorem of_refusal? {fault : Fault} (h : refusal? path = some fault) : LooksSame fs fs' path := by
  rw [LooksSame, status_of_error (resolve_of_refusal? h fs' .follow),
    status_of_error (resolve_of_refusal? h fs .follow)]

/-- What is found in one of them is found in the other. -/
theorem cases (h : LooksSame fs fs' path) :
    (∃ fault, fs.status path = .error fault ∧ fs'.status path = .error fault) ∨
      ∃ node node', fs.status path = .ok node ∧ fs'.status path = .ok node' ∧
        node'.entry = node.entry ∧ node'.names = node.names := by
  rw [LooksSame] at h
  cases hStatus : fs.status path with
  | error fault =>
      rw [hStatus] at h
      cases hStatus' : fs'.status path with
      | error fault' =>
          rw [hStatus'] at h
          cases h
          exact .inl ⟨fault, rfl, rfl⟩
      | ok node' =>
          rw [hStatus'] at h
          cases h
  | ok node =>
      rw [hStatus] at h
      cases hStatus' : fs'.status path with
      | error fault' =>
          rw [hStatus'] at h
          cases h
      | ok node' =>
          rw [hStatus'] at h
          obtain ⟨hEntry, hNames⟩ := Prod.mk.inj (Except.ok.inj h)
          exact .inr ⟨node, node', rfl, rfl, hEntry, hNames⟩

theorem isDir_eq (h : LooksSame fs fs' path) : fs'.isDir path = fs.isDir path := by
  rcases h.cases with ⟨fault, hStatus, hStatus'⟩ | ⟨node, node', hStatus, hStatus', hEntry, -⟩
  · rw [isDir, isDir, hStatus, hStatus']
  · rw [isDir, isDir, hStatus, hStatus']
    exact Node.isDir_congr hEntry

theorem listDir_eq (h : LooksSame fs fs' path) : fs'.listDir path = fs.listDir path := by
  rcases h.cases with ⟨fault, hStatus, hStatus'⟩ | ⟨node, node', hStatus, hStatus', hEntry, hNames⟩
  · rw [listDir, listDir, hStatus, hStatus']
  · rw [listDir, listDir, hStatus, hStatus']
    change (if node'.isDir then Except.ok node'.names else _) = if node.isDir then _ else _
    rw [Node.isDir_congr hEntry, hNames]

end LooksSame

/-! Names after a path. -/

/-- A path that ends in a name shows the entry of that name, unless it is a link. -/
theorem Reaches.status_name (h : Reaches fs path links dir) (hDir : fs.entryAt? dir = some .dir)
    (hName : name.IsProper) (hLength : name.length ≤ maxName)
    (hAccepts : Accepts (path.join ⟨name⟩))
    (hLink : ∀ target, fs.entryAt? (dir ++ [name]) ≠ some (.link target)) :
    fs.status (path.join ⟨name⟩) = found (fs.at? (dir ++ [name])) :=
  status_of_resolve (h.resolve_entry hDir hName hLength hAccepts (.inr (.inr hLink)))

/-- A link to an entry beside it. -/
structure IsBeside (target : Path) (name : Name) : Prop where
  isRelative : target.isAbsolute = false
  segments_eq : target.segments = [name]
  noSlash : target.endsInSlash = false
  isProper : name.IsProper
  length_le : name.length ≤ maxName

/-- A path that ends in the name of a link shows the entry beside it that the link leads to, if one
more link may be followed. -/
theorem Reaches.status_link (h : Reaches fs path links dir) (hDir : fs.entryAt? dir = some .dir)
    (hName : name.IsProper) (hLength : name.length ≤ maxName)
    (hAccepts : Accepts (path.join ⟨name⟩))
    (hFound : fs.entryAt? (dir ++ [name]) = some (.link target)) (hTarget : IsBeside target other)
    (hLink : ∀ target, fs.entryAt? (dir ++ [other]) ≠ some (.link target)) :
    fs.status (path.join ⟨name⟩) =
      if links = 0 then .error .tooManyLinks else found (fs.at? (dir ++ [other])) := by
  obtain ⟨trail, hTrail, hResolve⟩ : ∃ trail, Trail.to? fs.root dir = some trail ∧
      fs.resolve .follow (path.join ⟨name⟩) = walk fs.root .follow links trail [name] false :=
    h.resolve_join hName hAccepts
  have hIsDir := isDir_of_to? hTrail hDir
  have hChild : (trail.node fs.root).child? name = some (.link target) := by
    obtain ⟨node, hNode, hEntry⟩ := Option.map_eq_some_iff.mp (entryAt?_child hTrail name ▸ hFound)
    cases node with
    | link other => rw [hNode, ← Entry.link.inj hEntry]
    | file | dir | device => cases hEntry
  have hOther : (trail.node fs.root).child? other = fs.at? (dir ++ [other]) :=
    Trail.child?_node hTrail other
  rw [walk_follow_cons [] hIsDir hName.ne_dot hName.ne_dots, if_neg (Nat.not_lt.mpr hLength),
    hChild] at hResolve
  cases links with
  | zero => exact status_of_error hResolve
  | succ links =>
      simp only [hTarget.isRelative, hTarget.segments_eq, hTarget.noSlash, List.append_nil,
        Bool.and_false, Bool.or_false, Bool.false_eq_true, if_false] at hResolve
      rw [walk_follow_cons [] hIsDir hTarget.isProper.ne_dot hTarget.isProper.ne_dots,
        if_neg (Nat.not_lt.mpr hTarget.length_le), hOther] at hResolve
      rw [if_neg (Nat.succ_ne_zero links)]
      cases hNode : fs.at? (dir ++ [other]) with
      | none =>
          rw [hNode] at hResolve
          exact status_of_resolve hResolve
      | some node =>
          rw [hNode] at hResolve
          cases node with
          | link target => exact absurd (by rw [entryAt?, hNode]; rfl) (hLink target)
          | file | dir | device => exact status_of_resolve hResolve

/-- The entry beside a link is reached through it, with one link less to follow. -/
theorem Reaches.join_link (h : Reaches fs path (links + 1) dir) (hName : name.IsProper)
    (hLength : name.length ≤ maxName)
    (hFound : fs.entryAt? (dir ++ [name]) = some (.link target)) (hTarget : IsBeside target other)
    {entry : Entry} (hOther : fs.entryAt? (dir ++ [other]) = some entry)
    (hLink : ∀ target, entry ≠ .link target) :
    Reaches fs (path.join ⟨name⟩) links (dir ++ [other]) := by
  obtain ⟨start, names, hStart, hStartFound, hLeads⟩ := h
  refine ⟨start, names ++ [name], by rw [start?_join hName, hStart, Option.map_some], hStartFound,
    hLeads.trans (.link hName.ne_dot hName.ne_dots hLength hFound ?_)⟩
  rw [hTarget.isRelative, hTarget.segments_eq]
  exact .entry hTarget.isProper.ne_dot hTarget.isProper.ne_dots hTarget.length_le hOther hLink
    (.nil _ _)

/-- A path that ends in a name leads to a directory if it is accepted and its entry is a directory,
unless that is a link. -/
theorem Reaches.isDir_iff (h : Reaches fs path links dir) (hDir : fs.entryAt? dir = some .dir)
    (hName : name.IsProper) (hLength : name.length ≤ maxName)
    (hLink : ∀ target, fs.entryAt? (dir ++ [name]) ≠ some (.link target)) :
    fs.isDir (path.join ⟨name⟩) ↔
      refusal? (path.join ⟨name⟩) = none ∧ fs.entryAt? (dir ++ [name]) = some .dir := by
  cases hRefusal : refusal? (path.join ⟨name⟩) with
  | some fault =>
      rw [isDir, status_of_error (resolve_of_refusal? hRefusal fs .follow)]
      simp
  | none =>
      rw [isDir, h.status_name hDir hName hLength (accepts_of_refusal? hRefusal) hLink, entryAt?]
      cases fs.at? (dir ++ [name]) with
      | none => simp [found]
      | some node => simp [found]

/-- A link leads to a directory if it may be followed and the entry beside it is one. -/
theorem Reaches.isDir_link (h : Reaches fs path links dir) (hDir : fs.entryAt? dir = some .dir)
    (hName : name.IsProper) (hLength : name.length ≤ maxName)
    (hFound : fs.entryAt? (dir ++ [name]) = some (.link target)) (hTarget : IsBeside target other)
    (hLink : ∀ target, fs.entryAt? (dir ++ [other]) ≠ some (.link target))
    (hIsDir : fs.isDir (path.join ⟨name⟩)) :
    links ≠ 0 ∧ fs.entryAt? (dir ++ [other]) = some .dir := by
  cases hRefusal : refusal? (path.join ⟨name⟩) with
  | some fault =>
      rw [isDir, status_of_error (resolve_of_refusal? hRefusal fs .follow)] at hIsDir
      cases hIsDir
  | none =>
      rw [isDir, h.status_link hDir hName hLength (accepts_of_refusal? hRefusal) hFound hTarget
        hLink] at hIsDir
      by_cases hZero : links = 0
      · rw [if_pos hZero] at hIsDir
        cases hIsDir
      · rw [if_neg hZero] at hIsDir
        refine ⟨hZero, ?_⟩
        rw [entryAt?]
        cases hNode : fs.at? (dir ++ [other]) with
        | none =>
            rw [hNode] at hIsDir
            cases hIsDir
        | some node =>
            rw [hNode] at hIsDir
            rw [Option.map_some, (Node.entry_eq_dir_iff node).mpr hIsDir]

/-- What two paths name in directories that they reach looks the same if the same is held below. -/
theorem LooksSame.of_agreeBelow (h : Reaches fs path links location)
    (hDir : fs.entryAt? location = some .dir) (h' : Reaches fs' path links' location')
    (hDir' : fs'.entryAt? location' = some .dir) (hName : name.IsProper)
    (hLength : name.length ≤ maxName)
    (hAgree : AgreeBelow fs (location ++ [name]) fs' (location' ++ [name]))
    (hLink : ∀ target, fs.entryAt? (location ++ [name]) ≠ some (.link target)) :
    LooksSame fs fs' (path.join ⟨name⟩) := by
  cases hRefusal : refusal? (path.join ⟨name⟩) with
  | some fault => exact .of_refusal? hRefusal
  | none =>
      have hAccepts := accepts_of_refusal? hRefusal
      have hLink' : ∀ target, fs'.entryAt? (location' ++ [name]) ≠ some (.link target) := by
        rw [hAgree.entry_eq]
        exact hLink
      rw [LooksSame, h.status_name hDir hName hLength hAccepts hLink,
        h'.status_name hDir' hName hLength hAccepts hLink']
      exact hAgree.map_view_found

/-- A path leads to two directories, each in its file system, that hold the same. -/
structure Twins (fs fs' : FileSystem) (path : Path) (links links' : Nat)
    (location location' : Location) : Prop where
  reaches : Reaches fs path links location
  reaches' : Reaches fs' path links' location'
  isDir : fs.entryAt? location = some .dir
  agree : AgreeBelow fs location fs' location'

namespace Twins

theorem isDir' (h : Twins fs fs' path links links' location location') :
    fs'.entryAt? location' = some .dir :=
  h.agree.entry_eq.trans h.isDir

/-- What stands in the directories looks the same. -/
theorem looksSame (h : Twins fs fs' path links links' location location') (hName : name.IsProper)
    (hLength : name.length ≤ maxName)
    (hLink : ∀ target, fs.entryAt? (location ++ [name]) ≠ some (.link target)) :
    LooksSame fs fs' (path.join ⟨name⟩) :=
  .of_agreeBelow h.reaches h.isDir h.reaches' h.isDir' hName hLength (h.agree.append [name]) hLink

/-- A link to an entry beside it looks the same as long as it can be followed in both or in
none. -/
theorem looksSame_link (h : Twins fs fs' path links links' location location')
    (hName : name.IsProper) (hLength : name.length ≤ maxName)
    (hFound : fs.entryAt? (location ++ [name]) = some (.link target))
    (hTarget : IsBeside target other)
    (hLink : ∀ target, fs.entryAt? (location ++ [other]) ≠ some (.link target))
    (hLinks : links = 0 ↔ links' = 0) : LooksSame fs fs' (path.join ⟨name⟩) := by
  cases hRefusal : refusal? (path.join ⟨name⟩) with
  | some fault => exact .of_refusal? hRefusal
  | none =>
      have hAccepts := accepts_of_refusal? hRefusal
      have hFound' : fs'.entryAt? (location' ++ [name]) = some (.link target) := by
        rw [h.agree, hFound]
      have hLink' : ∀ target, fs'.entryAt? (location' ++ [other]) ≠ some (.link target) := by
        rw [h.agree]
        exact hLink
      rw [LooksSame, h.reaches.status_link h.isDir hName hLength hAccepts hFound hTarget hLink,
        h.reaches'.status_link h.isDir' hName hLength hAccepts hFound' hTarget hLink']
      by_cases hZero : links = 0
      · rw [if_pos hZero, if_pos (hLinks.mp hZero)]
      · rw [if_neg hZero, if_neg fun hZero' => hZero (hLinks.mpr hZero')]
        exact (h.agree.append [other]).map_view_found

/-- Directories that hold the same have directories of one name that hold the same. -/
theorem join (h : Twins fs fs' path links links' location location') (hName : name.IsProper)
    (hLength : name.length ≤ maxName) (hDir : fs.entryAt? (location ++ [name]) = some .dir) :
    Twins fs fs' (path.join ⟨name⟩) links links' (location ++ [name]) (location' ++ [name]) := by
  have hDir' : fs'.entryAt? (location' ++ [name]) = some .dir := (h.agree [name]).trans hDir
  exact ⟨h.reaches.join hName hLength hDir (by simp), h.reaches'.join hName hLength hDir' (by simp),
    hDir, h.agree.append [name]⟩

/-- The same goes for a directory reached through a link beside it, at the cost of one link. -/
theorem join_link (h : Twins fs fs' path (links + 1) (links' + 1) location location')
    (hName : name.IsProper) (hLength : name.length ≤ maxName)
    (hFound : fs.entryAt? (location ++ [name]) = some (.link target))
    (hTarget : IsBeside target other) (hDir : fs.entryAt? (location ++ [other]) = some .dir) :
    Twins fs fs' (path.join ⟨name⟩) links links' (location ++ [other]) (location' ++ [other]) := by
  have hFound' : fs'.entryAt? (location' ++ [name]) = some (.link target) :=
    (h.agree [name]).trans hFound
  have hDir' : fs'.entryAt? (location' ++ [other]) = some .dir := (h.agree [other]).trans hDir
  exact ⟨h.reaches.join_link hName hLength hFound hTarget hDir (by simp),
    h.reaches'.join_link hName hLength hFound' hTarget hDir' (by simp), hDir,
    h.agree.append [other]⟩

end Twins

end FileSystem

end ExportKit
