import GraphQLSyntax.Command.Outcome
import GraphQLSyntax.Files.System
import GraphQLSyntax.Scan.TokenStream
import GraphQLSyntax.SyntaxError.Diagnostic
import GraphQLSyntax.Text.Quoted
import GraphQLSyntax.Text.Trim

/-!
# The `tokens` command

Lists the lexemes of a file, one on a line, up to the end of the file or to the first text that fits
no kind.

* `Token.listing`: the line of a token.
* `Command.listTokens`: the command.
-/

namespace GraphQLSyntax

/-- The line of a token in a listing. -/
def Token.listing (t : Token) : String :=
  Layout.rightAligned 4 t.span.start.line ++ ":"
    ++ Layout.leftAligned 4 (toString t.span.start.column) ++ " "
    ++ Layout.leftAligned 18 t.lexeme.label ++ " " ++ Text.quoted t.text

/-- The tokens of a listing, which may leave out the comments. -/
def Token.listed (skipComments : Bool) (tokens : List Token) : List Token :=
  tokens.filter fun t => t.lexeme ≠ .unknown ∧ !(skipComments && t.lexeme == .comment)

namespace Command

/-- Lists the tokens of the text of the file at `path`. A listing that is complete is printed without
the white space at its end. -/
def listTokensOf (skipComments : Bool) (path text : String) : Except Layout.Failure Outcome :=
  let tokens := Token.listOfText text
  let listed := Token.listed skipComments tokens
  let listing := String.join (listed.map fun t => t.listing ++ "\n")
  match tokens.find? fun t => t.lexeme = .unknown with
  | some t =>
    let e := (SyntaxError.unexpected t.text t.span .unreadable).inFile path
    (e.diagnostic (some text)).map fun diagnostic => .failed listing diagnostic []
  | none =>
    let summary := "Scanned " ++ toString listed.length ++ " tokens from "
      ++ Text.quoted path ++ "."
    .ok (.succeeded (Text.trimEnd listing) [⟨.debug, summary⟩])

/-- Lists the tokens of the file at `path`. -/
def listTokens (files : FileSystem) (skipComments : Bool) (path : String) :
    Except Layout.Failure Outcome :=
  match files.read path with
  | .ok text => listTokensOf skipComments path text
  | .error fault =>
    .ok (.failed "" (Outcome.cross ++ " Failed to read " ++ path ++ ": " ++ fault.message) [])

end Command

end GraphQLSyntax
