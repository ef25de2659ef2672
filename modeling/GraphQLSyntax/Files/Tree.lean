import GraphQLSyntax.Files.Path
import GraphQLSyntax.Files.System

/-!
# File trees

Files, directories and symbolic links as a value, seen from a working directory at its root.

* `FileTree.lookup`: what stands at a path.
* `FileTree.walk`: what a walk meets, following links. A link to a directory that the walk is in
  ends the walk there.
* `FileTree.toFileSystem`: a tree as the files around a command.
-/

namespace GraphQLSyntax

/-- What may stand in a directory. -/
inductive FileNode where
  | file (bytes : ByteArray)
  | directory
  /-- A symbolic link. Its target is relative to the directory that it stands in. -/
  | link (target : String)
deriving Inhabited

/-- Where a node stands: the names from the root down. -/
abbrev Location := List String

/-- Files, directories and links by their location. -/
structure FileTree where
  entries : List (Location × FileNode)
deriving Inhabited

namespace FileTree

/-- The tree with nothing in it. -/
def empty : FileTree := ⟨[]⟩

/-- The node at a location. The root is a directory. -/
def node? (t : FileTree) (location : Location) : Option FileNode :=
  if location = [] then some .directory else t.entries.lookup location

/-- The tree with a node put at a location, in the place of what stood there. -/
def put (t : FileTree) (location : Location) (node : FileNode) : FileTree :=
  if (t.node? location).isSome then
    ⟨t.entries.map fun entry => if entry.1 = location then (location, node) else entry⟩
  else ⟨t.entries ++ [(location, node)]⟩

/-- The tree with a chain of directories below a location. -/
def makeDirectories (t : FileTree) (location : Location) : (names : List String) → FileTree
  | [] => t
  | name :: rest =>
    let inner := location ++ [name]
    let t := if (t.node? inner).isSome then t else t.put inner .directory
    t.makeDirectories inner rest

/-- The location that a path without links and `..` leads to. -/
def locate (path : String) : Location :=
  (Path.names path).filter fun name => name ≠ "" ∧ name ≠ "."

/-- The tree with a node at a path, and directories on the way to it. -/
def insert (t : FileTree) (path : String) (node : FileNode) : FileTree :=
  (t.makeDirectories [] (locate path).dropLast).put (locate path) node

/-- The tree with a directory at a path. -/
def insertDirectory (t : FileTree) (path : String) : FileTree :=
  t.makeDirectories [] (locate path)

/-- The names and nodes in a directory. -/
def children (t : FileTree) (location : Location) : List (String × FileNode) :=
  t.entries.filterMap fun (at_, node) =>
    at_.getLast?.bind fun name => if at_.dropLast = location then some (name, node) else none

/-! ## Looking up -/

/-- How many links may be followed on the way to one node. -/
def maxHops : Nat := 40

/-- What the names lead to from a directory. Links on the way are followed, and one at the end where
`follow` says so. -/
def resolve (t : FileTree) (follow : Bool) (hops : Nat) (directory : Location)
    (names : List String) : Except FileFault (Location × FileNode) :=
  match names with
  | [] => .ok (directory, .directory)
  | name :: rest =>
    if name = "" ∨ name = "." then t.resolve follow hops directory rest
    else if name = ".." then t.resolve follow hops directory.dropLast rest
    else
      let location := directory ++ [name]
      match t.node? location with
      | none => .error .notFound
      | some .directory => t.resolve follow hops location rest
      | some (.file bytes) =>
        if rest = [] then .ok (location, .file bytes) else .error .notADirectory
      | some (.link target) =>
        if rest = [] ∧ !follow then .ok (location, .link target)
        else
          match hops with
          | 0 => .error .tooManyLinks
          | hops + 1 => t.resolve follow hops directory (Path.names target ++ rest)
termination_by (hops, names.length)

/-- What stands at a path, and where. -/
def lookup (t : FileTree) (follow : Bool) (path : String) :
    Except FileFault (Location × FileNode) :=
  if path = "" then .error .notFound else t.resolve follow maxHops [] (Path.names path)

/-! ## Walking -/

/-- What a walk meets at a node and below it. `ancestors` are the directories that the walk is in,
the innermost first, and `fuel` bounds how deep it goes. -/
def visits (t : FileTree) : (fuel : Nat) → (ancestors : List (Location × String)) →
    (path : String) → Location → FileNode → List Visit
  | 0, _, _, _, _ => []
  | _ + 1, _, path, _, .file _ => [.entry path true]
  | fuel + 1, ancestors, path, location, .directory =>
    .entry path false :: (t.children location).flatMap fun (name, node) =>
      t.visits fuel ((location, path) :: ancestors) (Path.child path name) (location ++ [name]) node
  | fuel + 1, ancestors, path, _, .link _ =>
    match t.lookup true path with
    | .error fault => [.fault (.inaccessible path fault)]
    | .ok (target, .directory) =>
      match ancestors.find? fun ancestor => ancestor.1 = target with
      | some (_, ancestor) => [.fault (.loop path ancestor)]
      | none => t.visits fuel ancestors path target .directory
    | .ok (_, _) => [.entry path true]

/-- How deep a walk can go. Along a walk every link leads to a directory that the walk is not yet
in, and between two links it goes down by single directories. -/
def maxDepth (t : FileTree) : Nat := (t.entries.length + 2) * (t.entries.length + 3)

/-- What a walk meets at a path and below it. -/
def walk (t : FileTree) (path : String) : List Visit :=
  match t.lookup false path with
  | .error fault => [.fault (.inaccessible path fault)]
  | .ok (location, node) => t.visits t.maxDepth [] path location node

/-- The text of the file at a path. -/
def read (t : FileTree) (path : String) : Except FileFault String :=
  match t.lookup true path with
  | .error fault => .error fault
  | .ok (_, .file bytes) =>
    match String.fromUTF8? bytes with
    | some text => .ok text
    | none => .error .notText
  | .ok (_, _) => .error .isADirectory

/-- Whether there is a file at a path. -/
def isFile (t : FileTree) (path : String) : Bool :=
  match t.lookup true path with
  | .ok (_, .file _) => true
  | _ => false

/-- A tree as the files around a command. -/
def toFileSystem (t : FileTree) : FileSystem := ⟨t.walk, t.isFile, t.read, fun _ => "task panicked"⟩

end FileTree

end GraphQLSyntax
