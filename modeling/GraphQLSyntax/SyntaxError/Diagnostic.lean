import GraphQLSyntax.SyntaxError.Basic
import GraphQLSyntax.Text.Layout
import GraphQLSyntax.Text.Line

/-!
# Diagnostics

How a syntax error is shown to a person: on one line, or in full with the line of source text that
it stands on, a run of carets under what was found, and its notes.

* `SyntaxError.summary`: `path:line:column: error: message`.
* `SyntaxError.diagnostic`: the full form. Line numbers stand right-aligned in two columns, or more
  where they are longer. Markers are indented by the column that they point at.
-/

namespace GraphQLSyntax

/-- The columns that line number `n` is written in. -/
def Layout.gutter (n : Nat) : Nat := max 2 (toString n).length

/-! ## Markers -/

/-- The carets under a span: one for each byte of it, or a single one where it is empty or goes on
past its first line. -/
def Span.underline (s : Span) : Except Layout.Failure String :=
  if s.isEmpty ∨ s.endLine ≠ s.start.line then .ok "^"
  else if s.start.column ≤ s.endColumn + 1 then
    .ok (String.ofList (List.replicate (s.endColumn + 1 - s.start.column) '^'))
  else .error (.reversed s)

/-- The source line of a note, with a marker under the place it speaks of. Nothing where the text
has no such line. -/
def Note.snippet (source : String) (s : Span) : Except Layout.Failure String :=
  match Text.line? s.start.line source.toList with
  | none => .ok ""
  | some content => do
    let width := Layout.gutter s.start.line
    let indent ← Layout.indent s.start.column
    return "     " ++ Layout.rightAligned width s.start.line ++ " | " ++ String.ofList content
      ++ "\n     " ++ Layout.blanks width ++ " | " ++ indent ++ "-\n"

/-- A note with its label, and its source line where it has a place and the text is at hand. -/
def Note.render (source : Option String) (note : Note) : Except Layout.Failure String := do
  let snippet ← match note.span, source with
    | some span, some text => Note.snippet text span
    | _, _ => .ok ""
  return "   = " ++ note.kind.label ++ ": " ++ note.message ++ "\n" ++ snippet

namespace SyntaxError

/-- `path:line:column`, with `<input>` for a text from no file. -/
def location (e : SyntaxError) : String := e.path.getD "<input>" ++ ":" ++ e.span.start.render

/-- The error on one line. -/
def summary (e : SyntaxError) : String := e.location ++ ": error: " ++ e.message

/-- The source line that the error stands on, with carets under what was found. Nothing where the
text has no such line. -/
def snippet (e : SyntaxError) (source : String) : Except Layout.Failure String :=
  match Text.line? e.line source.toList with
  | none => .ok ""
  | some content => do
    let width := Layout.gutter e.line
    let underline ← e.span.underline
    let indent ← Layout.indent e.column
    return Layout.blanks width ++ " |\n"
      ++ Layout.rightAligned width e.line ++ " | " ++ String.ofList content ++ "\n"
      ++ Layout.blanks width ++ " | " ++ indent ++ underline ++ "\n"

/-- The error in full. Source lines are only shown where the text is at hand. -/
def diagnostic (e : SyntaxError) (source : Option String) : Except Layout.Failure String := do
  let snippet ← match source with
    | some text => e.snippet text
    | none => .ok ""
  let notes ← e.notes.mapM (Note.render source)
  return "error: " ++ e.message ++ "\n  --> " ++ e.location ++ "\n" ++ snippet ++ String.join notes

end SyntaxError

end GraphQLSyntax
