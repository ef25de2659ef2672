import GraphQLSyntax.Command.Request
import GraphQLSyntax.Command.Tokens
import GraphQLSyntax.Command.Type

/-!
# The command line

Runs a request against the files of the machine. All that a request needs to know of them is looked
up first, and handed to the command as a `FileSystem`.
-/

namespace GraphQLSyntax.CommandLine

/-- The entry of the working directory that a path leads to. -/
def entryAt (path : String) : IO.FS.DirEntry := ⟨path, ""⟩

/-- A fault of the machine as a fault of a file. -/
def faultOf (e : IO.Error) : FileFault :=
  let ofCode (signed : UInt32) : FileFault :=
    let code := if signed < 0x80000000 then signed else 0 - signed
    if code = 2 then .notFound
    else if code = 20 then .notADirectory
    else if code = 21 then .isADirectory
    else if code = 40 then .tooManyLinks
    else .other (toString e)
  match e with
  | .noFileOrDirectory _ code _ => ofCode code
  | .inappropriateType _ code _ => ofCode code
  | .invalidArgument _ code _ => ofCode code
  | .resourceExhausted _ code _ => ofCode code
  | .otherError code _ => ofCode code
  | _ => .other (toString e)

/-- The text of the file at a path. -/
def readText (path : String) : IO (Except FileFault String) := do
  try
    let bytes ← IO.FS.readBinFile path
    return match String.fromUTF8? bytes with
      | some text => .ok text
      | none => .error .notText
  catch e => return .error (faultOf e)

/-- Whether there is a file at a path. -/
def isFile (path : String) : IO Bool := do
  try
    let metadata ← (entryAt path).root.metadata
    return metadata.type == .file
  catch _ => return false

/-- What a walk meets at a path and below it. The walk is in the directories `ancestors`. -/
partial def visits (ancestors : List (String × String)) (path : String) : IO (List Visit) := do
  try
    let entry := (entryAt path).root
    let linked := (← entry.symlinkMetadata).type == .symlink
    match (← entry.metadata).type with
    | .dir =>
      let location := (← IO.FS.realPath path).toString
      match if linked then ancestors.find? fun a => a.1 == location else none with
      | some (_, ancestor) => return [.fault (.loop path ancestor)]
      | none =>
        let mut met := [Visit.entry path false]
        for child in ← entry.readDir do
          met := met ++ (← visits ((location, path) :: ancestors) (Path.child path child.fileName))
        return met
    | type => return [.entry path (type == .file)]
  catch e => return [.fault (.inaccessible path (faultOf e))]

/-- What a request needs to know of the files. -/
def filesFor (request : ParseRequest) : IO FileSystem := do
  let walks ← request.paths.mapM fun path => return (path, ← visits [] path)
  let arguments ← request.paths.filterM isFile
  let met := walks.flatMap fun walk => walk.2.filterMap fun
    | .entry path true => some path
    | _ => none
  let texts ← (arguments ++ met).mapM fun path => return (path, ← readText path)
  return {
    walk := fun path => (walks.lookup path).getD []
    isFile := fun path => arguments.contains path
    read := fun path => (texts.lookup path).getD (.error .notFound)
    joinError := fun _ => "task panicked" }

/-- Prints what came of a command. -/
def report (verbose : Bool) (o : Outcome) : IO UInt32 := do
  for line in o.log do
    if line.level == .warning || verbose && line.level == .debug then IO.eprintln line.render
  if let some text := o.stdout then IO.println text
  if let some text := o.stderr then IO.eprintln text
  return if o.success then 0 else 1

/-- Prints what came of a command whose diagnostic may be impossible to lay out. -/
def reportLaidOut (verbose : Bool) : Except Layout.Failure Outcome → IO UInt32
  | .ok o => report verbose o
  | .error _ => do
    IO.eprintln "error: the diagnostic is too wide"
    return 101

/-- How to call the program. -/
def usage : String :=
  "Parse and inspect GraphQL execution documents.\n\n"
    ++ "Usage: parse [--quiet] [--graphql-file-exts EXTS] PATHS...\n"
    ++ "       tokens [--skip-comments] FILE\n"
    ++ "       type TYPE"

/-- Runs what some arguments ask for. -/
def run (arguments : List String) : IO UInt32 := do
  match Request.ofArguments arguments with
  | .error e =>
    IO.eprintln e.message
    return 2
  | .ok (request, verbose) =>
    match request with
    | .help =>
      IO.println usage
      return 0
    | .type text => reportLaidOut verbose (Command.describeType text)
    | .tokens skipComments path =>
      let text ← readText path
      let files : FileSystem := ⟨fun _ => [], fun _ => false, fun _ => text, fun _ => ""⟩
      reportLaidOut verbose (Command.listTokens files skipComments path)
    | .parse request => report verbose (Command.parseFiles (← filesFor request) request)

end GraphQLSyntax.CommandLine

/-- The program. -/
def main (arguments : List String) : IO UInt32 := GraphQLSyntax.CommandLine.run arguments
