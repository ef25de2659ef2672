/-!
# Text between lexemes

White space, commas and byte order marks may stand anywhere between two lexemes.

* `isIgnorable`: the characters that separate lexemes.
* `isGap`: those and the byte order mark.
-/

namespace GraphQLSyntax.Lexical

/-- Space, comma, line feed, carriage return, tab, form feed and backspace. -/
def isIgnorable (c : Char) : Bool :=
  c == ' ' || c == ',' || c == '\n' || c == '\r' || c == '\t' || c == '\x0c' || c == '\x08'

/-- The byte order mark. -/
def byteOrderMark : Char := '\ufeff'

/-- Whether a character carries no meaning between lexemes. -/
def isGap (c : Char) : Bool := isIgnorable c || c == byteOrderMark

end GraphQLSyntax.Lexical
