/-!
# File systems

What a command needs to know of the files around it, and how their faults are worded.

* `FileSystem`: the entries below a path, and the text of a file.
* `FileFault`, `WalkFault`: what can go wrong. `WalkFault.inaccessible`, `WalkFault.loop`: the faults
  of a walk that have a path.
-/

namespace GraphQLSyntax

/-- Why a file cannot be read as a text. -/
inductive FileFault where
  | notFound
  | notADirectory
  | isADirectory
  | tooManyLinks
  | notText
  /-- Any other fault, by its wording. -/
  | other (message : String)
deriving DecidableEq, Repr, Inhabited

/-- The wording of a fault. -/
def FileFault.message : FileFault → String
  | notFound => "No such file or directory (os error 2)"
  | notADirectory => "Not a directory (os error 20)"
  | isADirectory => "Is a directory (os error 21)"
  | tooManyLinks => "Too many levels of symbolic links (os error 40)"
  | notText => "stream did not contain valid UTF-8"
  | other message => message

/-- Why a walk cannot go on, by its wording. -/
structure WalkFault where
  message : String
deriving DecidableEq, Repr, Inhabited

/-- There is no getting at a path. The reason is said twice: with the path, and behind that. -/
def WalkFault.inaccessible (path : String) (fault : FileFault) : WalkFault :=
  ⟨"IO error for operation on " ++ path ++ ": " ++ fault.message ++ ": " ++ fault.message⟩

/-- A path is a link to a directory that the walk is already in. -/
def WalkFault.loop (path ancestor : String) : WalkFault :=
  ⟨"File system loop found: " ++ path ++ " points to an ancestor " ++ ancestor⟩

/-- What a walk meets. -/
inductive Visit where
  | entry (path : String) (isFile : Bool)
  | fault (fault : WalkFault)
deriving DecidableEq, Repr, Inhabited

/-- The files around a command. -/
structure FileSystem where
  /-- What is met at a path and below it, each directory before its entries. Links are followed. -/
  walk : String → List Visit
  /-- Whether there is a file at a path. -/
  isFile : String → Bool
  /-- The text of the file at a path. -/
  read : String → Except FileFault String
  /-- What is said of the task for a path, if it panics. -/
  joinError : String → String

end GraphQLSyntax
