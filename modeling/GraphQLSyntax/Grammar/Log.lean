import GraphQLSyntax.Grammar.Document

/-!
# The log of a document

Reading a document is logged: its size, each definition once it has been read, and the totals at the
end.

* `LogLine`: a line of the log.
* `Document.log`: the lines for one text.
-/

namespace GraphQLSyntax

/-- How much detail a line of the log is. -/
inductive LogLevel where
  | warning
  | debug
  | trace
deriving DecidableEq, Repr, Inhabited

/-- The name of a level. -/
def LogLevel.label : LogLevel → String
  | warning => "WARN"
  | debug => "DEBUG"
  | trace => "TRACE"

/-- A line of the log. -/
structure LogLine where
  level : LogLevel
  message : String
deriving DecidableEq, Repr, Inhabited

/-- A line with its level in front. -/
def LogLine.render (l : LogLine) : String := l.level.label ++ " " ++ l.message

/-- What the log says of a definition. -/
def Definition.summary : Definition → String
  | operation o =>
    let name := match o.name with
      | some token => "Some(\"" ++ token.text ++ "\")"
      | none => "None"
    "Parsed " ++ o.kind.render ++ " operation " ++ name ++ " at " ++ o.span.start.render ++ "."
  | fragment f => "Parsed fragment `" ++ f.name.text ++ "` at " ++ f.span.start.render ++ "."

/-- What the log says of a document. -/
def Document.totals (d : Document) : String :=
  "Parsed " ++ toString d.operations.length ++ " operations and "
    ++ toString d.fragments.length ++ " fragments."

/-- The log of reading a text as a document. -/
def Document.log (text : String) : List LogLine :=
  let (definitions, result) := Document.attempt text
  ⟨.debug, "Parsing execution document (" ++ toString text.utf8ByteSize ++ " bytes)..."⟩ ::
    definitions.map (fun d => ⟨.trace, d.summary⟩) ++
    match result with
    | .ok d => [⟨.debug, d.totals⟩]
    | .error _ => []

end GraphQLSyntax
