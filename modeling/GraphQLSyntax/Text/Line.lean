/-!
# Lines

A line ends at a line feed, at a carriage return, or at a carriage return followed by a line feed,
which together end one line.

* `line?`: the text of a line by its number, counted from 1, without what ends it.
-/

namespace GraphQLSyntax.Text

/-- Whether a character ends a line. -/
def isLineBreak (c : Char) : Bool := c == '\n' || c == '\r'

/-- What follows the first line end. -/
def afterLine? : List Char → Option (List Char)
  | [] => none
  | '\r' :: '\n' :: cs => some cs
  | c :: cs => if isLineBreak c then some cs else afterLine? cs

/-- The text of line `n`. There is no line 0, and none past the last. -/
def line? : Nat → List Char → Option (List Char)
  | 0, _ => none
  | 1, cs => some (cs.takeWhile fun c => !isLineBreak c)
  | n + 2, cs => (afterLine? cs).bind (line? (n + 1))

end GraphQLSyntax.Text
