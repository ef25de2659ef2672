import GraphQLSyntax.Text.Slice
import GraphQLSyntax.Text.Line
import GraphQLSyntax.Lexeme.Keyword
import GraphQLSyntax.Token
import GraphQLSyntax.Lexical.Classify
import GraphQLSyntax.SyntaxError.Diagnostic
import GraphQLSyntax.Scan.TokenStream
import GraphQLSyntax.Tree.Outline
import GraphQLSyntax.Grammar.Repeated
import GraphQLSyntax.Tree.Serialized
import GraphQLSyntax.Grammar.Log
import GraphQLSyntax.Files.Tree
import GraphQLSyntax.Command.Type
import GraphQLSyntax.Command.Tokens
import GraphQLSyntax.Command.Parse
import GraphQLSyntax.Main
import GraphQLSyntax.Proofs.Tree.Mask
import GraphQLSyntax.Proofs.Scan.Tiling
import GraphQLSyntax.Proofs.Print.RoundTrip
import GraphQLSyntax.Proofs.Grammar.Decided
import GraphQLSyntax.Proofs.Grammar.Sliced
import GraphQLSyntax.Proofs.Grammar.WellFormed
import GraphQLSyntax.Proofs.Grammar.Progress
import GraphQLSyntax.Proofs.Grammar.Padded
import GraphQLSyntax.Proofs.Grammar.Concatenated
import GraphQLSyntax.Proofs.Command.Parse
import GraphQLSyntax.Proofs.Command.Type
import GraphQLSyntax.Proofs.Grammar.Commented
import GraphQLSyntax.Proofs.Print.Nesting
import GraphQLSyntax.Proofs.Grammar.Embedded
import GraphQLSyntax.Proofs.Grammar.ObjectLiteral
import GraphQLSyntax.Proofs.Grammar.Diagnostic
import GraphQLSyntax.Proofs.Lexical.Numeral
import GraphQLSyntax.Proofs.Lexical.StringLiteral
import GraphQLSyntax.Proofs.Grammar.Ending
import GraphQLSyntax.Proofs.Text.Digits
import GraphQLSyntax.Proofs.Text.Boundary
import GraphQLSyntax.Proofs.Bytewise.Cursor
import GraphQLSyntax.Proofs.Bytewise.Number
import GraphQLSyntax.Proofs.Bytewise.Quoted
import GraphQLSyntax.Proofs.Bytewise.Lexeme
import GraphQLSyntax.Proofs.Bytewise.Scanner
import GraphQLSyntax.Proofs.Grammar.Delimiters
import GraphQLSyntax.Proofs.Grammar.Logged
import GraphQLSyntax.Proofs.Grammar.SpanEnds
import GraphQLSyntax.Proofs.Command.ClosingLine
import GraphQLSyntax.Proofs.Command.Collected
import GraphQLSyntax.Proofs.Command.Tokens
import GraphQLSyntax.Proofs.Grammar.Counting
