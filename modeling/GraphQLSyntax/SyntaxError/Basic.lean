import GraphQLSyntax.Text.Position

/-!
# Syntax errors

Reading a text stops at the first thing that does not fit, and reports one `SyntaxError`: what was
found, where, and why it does not fit.

* `Cause`: why the text was refused, with the data a program needs to act on it.
* `Note`: what a reader needs besides, such as where the brace was opened that is never closed.
* `SyntaxError.unexpected`: the error whose message names the found text.
-/

namespace GraphQLSyntax

/-- Why a text was refused. -/
inductive Cause where
  /-- One of `expected` was required and `found` stood there. -/
  | unexpectedToken (expected : List String) (found : String)
  /-- The text ended where one of `expected` was required. -/
  | unexpectedEnd (expected : List String)
  /-- What stands there is no lexeme, or one that breaks off. -/
  | unreadable
  /-- A delimiter was opened and never closed. -/
  | unclosedDelimiter (delimiter : String)
  /-- A name was used where it has a meaning of its own. -/
  | reservedName (name : String)
  /-- Something was opened and closed without the content it must have. -/
  | emptyConstruct (construct : String)
  /-- A schema definition stands in an executable document. -/
  | schemaDefinition (keyword : String)
  /-- Any other violation, which the message describes. -/
  | invalidSyntax
deriving DecidableEq, Repr, Inhabited

/-- The wording of each cause. -/
def Cause.render : Cause → String
  | unexpectedToken _ found => "unexpected token: `" ++ found ++ "`"
  | unexpectedEnd _ => "unexpected end of input"
  | unreadable => "lexer error"
  | unclosedDelimiter delimiter => "unclosed delimiter: `" ++ delimiter ++ "`"
  | reservedName name => "reserved name: `" ++ name ++ "`"
  | emptyConstruct construct => "invalid empty construct: `" ++ construct ++ "`"
  | schemaDefinition keyword => "schema definition not supported: `" ++ keyword ++ "`"
  | invalidSyntax => "invalid syntax"

/-- What a note is for. -/
inductive NoteKind where
  | general
  /-- What to do about the error. -/
  | help
  /-- Where the rule is written down. -/
  | spec
deriving DecidableEq, Repr, Inhabited

/-- The label of a note in a diagnostic. -/
def NoteKind.label : NoteKind → String
  | general => "note"
  | help => "help"
  | spec => "spec"

/-- Further information about an error, and the place it speaks of. -/
structure Note where
  kind : NoteKind
  message : String
  span : Option Span
deriving DecidableEq, Repr, Inhabited

namespace Note

/-- A general note about no particular place. -/
def general (message : String) : Note := ⟨.general, message, none⟩

/-- A general note about a place. -/
def pointing (message : String) (span : Span) : Note := ⟨.general, message, some span⟩

/-- Advice. -/
def help (message : String) : Note := ⟨.help, message, none⟩

/-- A reference to the specification. -/
def spec (reference : String) : Note := ⟨.spec, reference, none⟩

end Note

/-- Why and where reading a text stopped. `found` is the text that did not fit, or `EOF` where the
input ended, and `path` the file it was read from, where there is one. -/
structure SyntaxError where
  message : String
  found : String
  span : Span
  cause : Cause
  notes : List Note
  path : Option String
deriving DecidableEq, Repr, Inhabited

namespace SyntaxError

/-- An error with a message of its own. -/
def ofMessage (message found : String) (span : Span) (cause : Cause) : SyntaxError :=
  ⟨message, found, span, cause, [], none⟩

/-- The error that calls the found text unexpected. -/
def unexpected (found : String) (span : Span) (cause : Cause) : SyntaxError :=
  ofMessage ("unexpected \"" ++ found ++ "\"") found span cause

/-- The error with a further note. -/
def withNote (e : SyntaxError) (note : Note) : SyntaxError := { e with notes := e.notes ++ [note] }

/-- The error in the given file. -/
def inFile (e : SyntaxError) (path : String) : SyntaxError := { e with path := some path }

/-- The line of the found text. -/
def line (e : SyntaxError) : Nat := e.span.start.line

/-- The column of the found text. -/
def column (e : SyntaxError) : Nat := e.span.start.column

end SyntaxError

end GraphQLSyntax
