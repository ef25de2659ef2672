/-!
# White space at the end of a text

* `isWhiteSpace`: the characters with the Unicode property `White_Space`.
* `trimEnd`: a text without those at its end.
-/

namespace GraphQLSyntax.Text

/-- Whether a character is white space. -/
def isWhiteSpace (c : Char) : Bool :=
  (0x9 ≤ c.toNat && c.toNat ≤ 0xd) || (0x2000 ≤ c.toNat && c.toNat ≤ 0x200a)
    || [0x20, 0x85, 0xa0, 0x1680, 0x2028, 0x2029, 0x202f, 0x205f, 0x3000].contains c.toNat

/-- A text without the white space at its end. -/
def trimEnd (text : String) : String :=
  String.ofList (text.toList.reverse.dropWhile isWhiteSpace).reverse

end GraphQLSyntax.Text
