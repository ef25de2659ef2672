import GraphQLSyntax.Command.Outcome
import GraphQLSyntax.Files.Path
import GraphQLSyntax.Files.System
import GraphQLSyntax.SyntaxError.Diagnostic
import GraphQLSyntax.Text.Quoted

/-!
# The `parse` command

Reads every file at or below some paths as an executable document, and sums up what is in them. Of a
directory only the files with certain extensions are read. A path that is a file is read in any case
where it is the only one and nothing else is.

* `Collection.ofVisits`: the files to read among what the walks meet.
* `FileResult.ofFile`: what came of one file.
* `Command.parseFiles`: the command.
-/

namespace GraphQLSyntax

/-- What to read, and how to report it. -/
structure ParseRequest where
  paths : List String
  extensions : List String
  quiet : Bool
deriving DecidableEq, Repr, Inhabited

namespace ParseRequest

/-- The extensions that are read where none are given. -/
def defaultExtensions : List String := ["graphql", "gql"]

/-- An extension without the dots in front of it. -/
def withoutDots (extension : String) : String :=
  String.ofList (extension.toList.dropWhile (· == '.'))

/-- The request for some paths. Each of `extensions` may be several with commas between them. There
must be a path. -/
def ofArguments? (paths extensions : List String) (quiet : Bool) : Option ParseRequest :=
  if paths = [] then none
  else
    let given := extensions.flatMap (Text.pieces ',')
    let extensions := if given = [] then defaultExtensions else given
    some ⟨paths, (extensions.map withoutDots).eraseDups, quiet⟩

/-- Whether a file is read because of its extension. -/
def matching (request : ParseRequest) (path : String) : Bool :=
  (Path.extension? path).any fun extension => request.extensions.contains extension

end ParseRequest

/-! ## Collecting files -/

/-- The files to read, and what else the walks met. -/
structure Collection where
  files : List String
  skipped : Nat
  faults : List WalkFault
deriving DecidableEq, Repr, Inhabited

namespace Collection

/-- A collection with one more thing that a walk met. -/
def add (request : ParseRequest) (c : Collection) : Visit → Collection
  | .fault fault => { c with faults := c.faults ++ [fault] }
  | .entry _ false => c
  | .entry path true =>
    if request.matching path then { c with files := c.files ++ [path] }
    else { c with skipped := c.skipped + 1 }

/-- The files to read among what the walks meet. -/
def ofVisits (request : ParseRequest) (visits : List Visit) : Collection :=
  visits.foldl (add request) ⟨[], 0, []⟩

/-- The only path of a request, where it is a file. -/
def onlyFile? (files : FileSystem) : List String → Option String
  | [path] => if files.isFile path then some path else none
  | _ => none

/-- The files that a request asks for, and whether a file is among them only because it is the only
path. -/
def ofRequest (files : FileSystem) (request : ParseRequest) : Collection × Option String :=
  let c := ofVisits request (request.paths.flatMap files.walk)
  match if c.files.isEmpty then onlyFile? files request.paths else none with
  | some path => ({ c with files := [path], skipped := 0 }, some path)
  | none => (c, none)

/-- What the log says of what a walk met below a path. -/
def logLines (request : ParseRequest) (path : String) : Visit → List LogLine
  | .fault _ =>
    [⟨.trace, "Encountered an error while iterating recursive filesystem entities at/under "
      ++ Text.quoted path ++ "."⟩]
  | .entry met false => [⟨.trace, "Skipping non-file: " ++ Text.quoted met ++ "."⟩]
  | .entry met true =>
    if request.matching met then
      [⟨.trace, "Found GraphQL file at " ++ Text.quoted met ++ "."⟩]
    else []

/-- What the log says of a file that is read although its extension does not ask for it. -/
def warning (request : ParseRequest) (path : String) : LogLine :=
  let extensions := request.extensions.map fun extension => "`." ++ extension ++ "`"
  ⟨.warning, "Proceeding to parse " ++ Text.quoted path
    ++ " even though it doesn't match any of the --graphql-file-exts ("
    ++ ", ".intercalate extensions ++ ")."⟩

/-- The log of collecting the files of a request. -/
def log (files : FileSystem) (request : ParseRequest) : List LogLine :=
  let (c, only) := ofRequest files request
  [⟨.debug, "Scanning " ++ toString request.paths.length ++ " input paths..."⟩]
    ++ request.paths.flatMap (fun path => (files.walk path).flatMap (logLines request path))
    ++ only.toList.map (warning request)
    ++ [⟨.debug, "Found " ++ toString c.files.length ++ " GraphQL files to be parsed."⟩]

end Collection

/-! ## Reading files -/

/-- What a document contains. -/
structure DocumentSummary where
  operations : Nat
  fragments : Nat
  fields : Nat
deriving DecidableEq, Repr, Inhabited

namespace DocumentSummary

/-- What the given document contains. -/
def ofDocument (d : Document) : DocumentSummary :=
  ⟨d.operations.length, d.fragments.length, d.fieldCount⟩

/-- What two documents contain together. -/
def add (a b : DocumentSummary) : DocumentSummary :=
  ⟨a.operations + b.operations, a.fragments + b.fragments, a.fields + b.fields⟩

/-- What some documents contain together. -/
def total (summaries : List DocumentSummary) : DocumentSummary := summaries.foldl add ⟨0, 0, 0⟩

/-- The line of a document in a report. -/
def reportLine (path : String) (s : DocumentSummary) : String :=
  Outcome.check ++ " " ++ path ++ ": " ++ toString s.operations ++ " operations, "
    ++ toString s.fragments ++ " fragments, " ++ toString s.fields ++ " fields\n"

/-- What the log says of a document. -/
def logLine (path : String) (s : DocumentSummary) : LogLine :=
  ⟨.debug, "Parsed " ++ Text.quoted path ++ ": DocumentSummary \x7b operations: "
    ++ toString s.operations ++ ", fragments: " ++ toString s.fragments ++ ", fields: "
    ++ toString s.fields ++ " \x7d."⟩

end DocumentSummary

/-- What came of a file. -/
inductive FileResult where
  | parsed (path : String) (summary : DocumentSummary)
  /-- The file is no executable document, as the diagnostic explains. -/
  | refused (diagnostic : String)
  /-- The file could not be read, or its diagnostic not be laid out. -/
  | failed (message : String)
deriving DecidableEq, Repr, Inhabited

namespace FileResult

/-- What comes of the file at `path` with the given text. Where its diagnostic cannot be laid out,
the task panics, of which `joinError` is said. -/
def ofText (joinError path text : String) : FileResult :=
  match Document.parse text with
  | .ok d => parsed path (.ofDocument d)
  | .error e =>
    match (e.inFile path).diagnostic (some text) with
    | .ok diagnostic => refused diagnostic
    | .error _ => failed ("parse task for " ++ path ++ " failed: " ++ joinError)

/-- What comes of the file at `path`. -/
def ofFile (files : FileSystem) (path : String) : FileResult :=
  match files.read path with
  | .ok text => ofText (files.joinError path) path text
  | .error fault => failed ("failed to read " ++ path ++ ": " ++ fault.message)

/-- The log of reading the file at `path`. -/
def log (files : FileSystem) (path : String) : List LogLine :=
  match files.read path with
  | .error _ => []
  | .ok text =>
    Document.log text ++ match ofText (files.joinError path) path text with
      | parsed path summary => [summary.logLine path]
      | _ => []

/-- What a parsed file contains. -/
def summary? : FileResult → Option DocumentSummary
  | parsed _ summary => some summary
  | _ => none

/-- The line of a parsed file in the report. -/
def reportLine? : FileResult → Option String
  | parsed path summary => some (summary.reportLine path)
  | _ => none

/-- The diagnostic of a refused file. -/
def diagnostic? : FileResult → Option String
  | refused diagnostic => some diagnostic
  | _ => none

/-- The message of a file that could not be read. -/
def message? : FileResult → Option String
  | failed message => some message
  | _ => none

end FileResult

/-! ## The command -/

namespace Command

/-- The report of a run in which every file was parsed. -/
def successReport (report : String) (files skipped : Nat) (total : DocumentSummary) : String :=
  report ++ Outcome.check ++ " All GraphQL parsed successfully:\n"
    ++ "  * Parsed " ++ toString files ++ " files.\n"
    ++ "  * Skipped " ++ toString skipped ++ " non-graphql files.\n"
    ++ "  * Found " ++ toString total.operations ++ " operations.\n"
    ++ "  * Found " ++ toString total.fragments ++ " fragments.\n"
    ++ "  * Found " ++ toString total.fields ++ " field selections."

/-- The report of what went wrong in a run over `files` files. -/
def failureReport (diagnostics messages : List String) (files : Nat) : String :=
  "\n".intercalate diagnostics
    ++ String.join (messages.map fun message => "error: " ++ message ++ "\n")
    ++ Outcome.cross ++ " " ++ toString (diagnostics.length + messages.length) ++ " of "
    ++ toString files ++ " files failed to parse."

/-- Reads the files of a request as executable documents. -/
def parseFiles (files : FileSystem) (request : ParseRequest) : Outcome :=
  let c := (Collection.ofRequest files request).1
  let results := c.files.map (FileResult.ofFile files)
  let log := Collection.log files request ++ c.files.flatMap (FileResult.log files)
  let report := if request.quiet then "" else String.join (results.filterMap FileResult.reportLine?)
  let diagnostics := results.filterMap FileResult.diagnostic?
  let messages := c.faults.map WalkFault.message ++ results.filterMap FileResult.message?
  if diagnostics = [] ∧ messages = [] then
    .succeeded (successReport report c.files.length c.skipped
      (.total (results.filterMap FileResult.summary?))) log
  else .failed report (failureReport diagnostics messages c.files.length) log

end Command

end GraphQLSyntax
