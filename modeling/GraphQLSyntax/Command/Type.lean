import GraphQLSyntax.Command.Outcome
import GraphQLSyntax.SyntaxError.Diagnostic

/-!
# The `type` command

Describes a type reference: its name, the number of lists around it, its marks in binary, and each
level from the outside in.

* `Command.describeType`: the command.
-/

namespace GraphQLSyntax

/-- The description of each level of a type, the outermost first. -/
def TypeRef.levelLines (t : TypeRef) : List String :=
  (List.range (t.dimensions + 1)).map fun level =>
    let what := if level < t.dimensions then "list" else "`" ++ t.name.text ++ "`"
    let mark := if t.isNonNullAt level then "non-null" else "nullable"
    "  level " ++ toString level ++ ": " ++ mark ++ " " ++ what

/-- The description of a type. -/
def TypeRef.description (t : TypeRef) : String :=
  "name: " ++ t.name.text ++ "\nlist dimensions: " ++ toString t.dimensions
    ++ "\nnullability: 0b" ++ String.ofList (Nat.toDigits 2 t.mask) ++ "\n"
    ++ "\n".intercalate t.levelLines

namespace Command

/-- Describes the type that a text is. -/
def describeType (text : String) : Except Layout.Failure Outcome :=
  match TypeRef.parse text with
  | .ok t => .ok (.succeeded t.description [])
  | .error e =>
    (e.diagnostic (some text)).map fun diagnostic =>
      .failed "" (diagnostic ++ Outcome.cross ++ " Invalid type annotation.") []

end Command

end GraphQLSyntax
