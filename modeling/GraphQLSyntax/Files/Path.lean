import GraphQLSyntax.Text.Split

/-!
# Paths

A path is a text with `/` between the names on the way to a file. Empty names and `.` stay where
they are.

* `Path.child`: the path of an entry of a directory.
* `Path.extension?`: what follows the last dot of the file name.
-/

namespace GraphQLSyntax

namespace Path

/-- The names on the way, among them empty ones, `.` and `..`. -/
def names (path : String) : List String := Text.pieces '/' path

/-- The path of the entry `name` of the directory at `path`. -/
def child (path name : String) : String :=
  match path.toList.getLast? with
  | none | some '/' => path ++ name
  | some _ => path ++ "/" ++ name

/-- The name that a path ends in, unless it ends in `..`. -/
def fileName? (path : String) : Option String :=
  ((names path).filter fun name => name ≠ "" ∧ name ≠ ".").getLast?.filter (· ≠ "..")

/-- What follows the last dot of the file name. A dot in front of the name does not count. -/
def extension? (path : String) : Option String :=
  (fileName? path).bind fun name =>
    match (Text.split '.' name.toList).reverse with
    | _ :: [] | _ :: [[]] => none
    | last :: _ => some (String.ofList last)
    | [] => none

end Path

end GraphQLSyntax
