import ExportKit.FileSystem.Basic

/-!
How a path leads through a file system. Each name is looked up in the directory reached so far, a
link is replaced by its target, and at most 40 links are followed on the way. A walk ends at an
entry, or at a place in an existing directory where an entry could be created.

A walk keeps the trail of nodes that it came by, so that two dots lead back along it. The node at
the end of a trail is the one at its location.
-/
namespace ExportKit.FileSystem

/-- The nodes on the way down from a root, each with its name, the last one first. -/
abbrev Trail := List (Name × Node)

namespace Trail

def location (trail : Trail) : Location := (trail.map (·.1)).reverse

/-- The node at the end of a trail that starts at `root`. -/
def node (root : Node) : Trail → Node
  | [] => root
  | (_, last) :: _ => last

/-- A trail led on by one name, if there is such an entry. -/
def child? (root : Node) (trail : Trail) (name : Name) : Option Trail :=
  ((trail.node root).child? name).map fun child => (name, child) :: trail

def to? (root : Node) (location : Location) : Option Trail := location.foldlM (child? root) []

theorem location_cons (name : Name) (node : Node) (trail : Trail) :
    Trail.location ((name, node) :: trail) = trail.location ++ [name] := by
  simp [location]

/-- Steps down a trail add the names taken to its location, and lead to the node under them. -/
theorem node_of_foldlM {root : Node} {names : List Name} {trail last : Trail}
    (h : names.foldlM (child? root) trail = some last) :
    last.location = trail.location ++ names ∧
      (trail.node root).at? names = some (last.node root) := by
  induction names generalizing trail with
  | nil => simp_all [Node.at?]
  | cons name names ih =>
    simp only [List.foldlM_cons, child?, Option.bind_eq_bind, Option.bind_eq_some_iff,
      Option.map_eq_some_iff] at h
    obtain ⟨_, ⟨child, found, rfl⟩, rest⟩ := h
    have := ih rest
    simp_all [location_cons, node, Node.at?]

/-- The trail to a location ends there, at the node of that location. -/
theorem node_of_to? {root : Node} {location : Location} {trail : Trail}
    (h : to? root location = some trail) :
    trail.location = location ∧ root.at? location = some (trail.node root) :=
  node_of_foldlM h

end Trail

/-- What a walk does with the last name of a path. -/
inductive Ending where
  /-- A link is followed, and a slash after the name asks for a directory. -/
  | follow
  /-- A link is the end, unless a slash follows it, which asks for a directory. -/
  | keep
  /-- A link is followed, and a slash after the name is refused. -/
  | create
  /-- A link is the end, also if a slash follows it. -/
  | name
  deriving DecidableEq

/-- Where a walk ends: an entry, or a place for one in an existing directory. -/
structure Spot where
  location : Location
  node? : Option Node
  /-- Whether the path has a slash after the last name. -/
  slash : Bool

/-- The longest path that is accepted, in bytes. -/
def maxPath : Nat := 4095

/-- How many links a walk follows. -/
def maxLinks : Nat := 40

/-- The end of a walk at an entry that is no link. -/
def arrive (ending : Ending) (location : Location) (node : Node) (slash : Bool) :
    Except Fault Spot :=
  if slash ∧ ending ≠ .name ∧ !node.isDir then .error .notDirectory
  else .ok ⟨location, some node, slash⟩

/-- Walks along `names` from the end of a trail, following at most `links` links. -/
def walk (root : Node) (ending : Ending) (links : Nat) (trail : Trail) (names : List Name)
    (slash : Bool) : Except Fault Spot :=
  let here := trail.node root
  match names with
  | [] => .ok ⟨trail.location, some here, slash⟩
  | name :: rest =>
    if !here.isDir then .error .notDirectory
    else if name = [Path.dot] then walk root ending links trail rest slash
    else if name = [Path.dot, Path.dot] then walk root ending links trail.tail rest slash
    else if rest = [] ∧ ending = .create ∧ slash then .error .isDirectory
    else if maxName < name.length then .error .nameTooLong
    else
      match here.child? name with
      | none =>
        if rest = [] then .ok ⟨trail.location ++ [name], none, slash⟩ else .error .notFound
      | some (.link target) =>
        if rest = [] ∧ (ending = .name ∨ ending = .keep ∧ !slash) then
          .ok ⟨trail.location ++ [name], some (.link target), slash⟩
        else
          match links with
          | 0 => .error .tooManyLinks
          | links + 1 =>
            walk root ending links (if target.isAbsolute then [] else trail)
              (target.segments ++ rest)
              (slash || decide (rest = []) && target.endsInSlash)
      | some node =>
        if rest = [] then arrive ending (trail.location ++ [name]) node slash
        else walk root ending links ((name, node) :: trail) rest slash
termination_by (links, names.length)

/-- Walks along `names` from a location, where there has to be a directory. -/
def walkFrom (root : Node) (ending : Ending) (start : Location) (names : List Name)
    (slash : Bool) : Except Fault Spot :=
  match Trail.to? root start with
  | none => .error .notFound
  | some trail =>
    if (trail.node root).isDir then walk root ending maxLinks trail names slash
    else .error .notDirectory

/-- Walks along `names` from a directory that was removed from the one at `parent`. The location of
the removed directory itself ends in the empty name, where nothing else is. -/
def walkFromRemoved (root : Node) (ending : Ending) (parent : Location) (slash : Bool) :
    List Name → Except Fault Spot
  | [] => .ok ⟨parent ++ [[]], some (.dir []), slash⟩
  | name :: rest =>
    if name = [Path.dot] then walkFromRemoved root ending parent slash rest
    else if name = [Path.dot, Path.dot] then walkFrom root ending parent rest slash
    else if rest = [] ∧ ending = .create ∧ slash then .error .isDirectory
    else .error .notFound

/-- Where a path leads. A relative one starts in the working directory. -/
def resolve (fs : FileSystem) (ending : Ending) (path : Path) : Except Fault Spot :=
  if path.bytes.contains 0 then .error .zeroByte
  else if path.bytes = [] then .error .notFound
  else if maxPath < path.bytes.length then .error .nameTooLong
  else if path.isAbsolute then walkFrom fs.root ending [] path.segments path.endsInSlash
  else
    match fs.workingDir with
    | .existing here => walkFrom fs.root ending here path.segments path.endsInSlash
    | .removed parent => walkFromRemoved fs.root ending parent path.endsInSlash path.segments

end ExportKit.FileSystem
