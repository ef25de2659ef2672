import GraphQLSyntax.Command.Parse

/-!
# Requests

What a command line asks for.

* `Request.ofArguments`: the request that some arguments make. Options may stand anywhere before
  `--`.
-/

namespace GraphQLSyntax

/-- What to do. -/
inductive Request where
  | parse (request : ParseRequest)
  | tokens (skipComments : Bool) (path : String)
  | type (text : String)
  | help
deriving Repr, Inhabited

/-- Why arguments make no request. -/
inductive UsageError where
  | missingArgument
  | unexpectedArgument (argument : String)
  | unknownCommand (name : String)
deriving DecidableEq, Repr, Inhabited

/-- The wording of a usage error. -/
def UsageError.message : UsageError → String
  | missingArgument => "error: a required argument was not provided"
  | unexpectedArgument argument => "error: unexpected argument '" ++ argument ++ "' found"
  | unknownCommand name => "error: unrecognized subcommand '" ++ name ++ "'"

/-- Arguments sorted into options and others. -/
structure SortedArguments where
  verbose : Bool
  quiet : Bool
  skipComments : Bool
  extensions : List String
  positional : List String
deriving DecidableEq, Repr, Inhabited

namespace SortedArguments

/-- No arguments. -/
def none : SortedArguments := ⟨false, false, false, [], []⟩

/-- The option that sets the extensions. -/
def extensionsOption : String := "--graphql-file-exts"

/-- Sorts one argument in, or the value of the option `pending`. -/
def ofList : (pending : Bool) → List String → Except UsageError SortedArguments
  | true, [] => .error .missingArgument
  | true, value :: rest => do
    let sorted ← ofList false rest
    return { sorted with extensions := value :: sorted.extensions }
  | false, [] => .ok none
  | false, "--" :: rest => .ok { none with positional := rest }
  | false, argument :: rest =>
    if argument = "-v" ∨ argument = "--verbose" then do
      let sorted ← ofList false rest
      return { sorted with verbose := true }
    else if argument = "-q" ∨ argument = "--quiet" then do
      let sorted ← ofList false rest
      return { sorted with quiet := true }
    else if argument = "--skip-comments" then do
      let sorted ← ofList false rest
      return { sorted with skipComments := true }
    else if argument = extensionsOption then ofList true rest
    else if (extensionsOption ++ "=").isPrefixOf argument then do
      let sorted ← ofList false rest
      let value := String.ofList (argument.toList.drop (extensionsOption.length + 1))
      return { sorted with extensions := value :: sorted.extensions }
    else if argument.startsWith "-" ∧ argument ≠ "-" then .error (.unexpectedArgument argument)
    else do
      let sorted ← ofList false rest
      return { sorted with positional := argument :: sorted.positional }

end SortedArguments

namespace Request

/-- The request that some arguments make, and whether the log is to be shown in detail. -/
def ofArguments (arguments : List String) : Except UsageError (Request × Bool) := do
  let sorted ← SortedArguments.ofList false arguments
  let request ← match sorted.positional with
    | [] => .ok help
    | "parse" :: paths =>
      match ParseRequest.ofArguments? paths sorted.extensions sorted.quiet with
      | some request => .ok (parse request)
      | none => .error .missingArgument
    | ["tokens", path] => .ok (tokens sorted.skipComments path)
    | ["type", text] => .ok (type text)
    | ["tokens"] | ["type"] => .error .missingArgument
    | "tokens" :: _ :: argument :: _ | "type" :: _ :: argument :: _ =>
      .error (.unexpectedArgument argument)
    | name :: _ => .error (.unknownCommand name)
  return (request, sorted.verbose)

end Request

end GraphQLSyntax
