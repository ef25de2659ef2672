import GraphQLSyntax.Token

/-!
# Values

Literal values as they stand in arguments, defaults and lists. The literals `true`, `false` and
`null` keep no token and so have no place in the text. An object literal is kept as its text.

* `Value.type?`, `Value.span?`: the type of a value, and the text it covers.
* `ArgumentValue`: what an argument may be given, a value or a variable.
-/

namespace GraphQLSyntax

/-- A literal value. -/
inductive Value where
  | boolean (value : Bool)
  | null
  /-- A number, a string, the name of an enum member, or the text of an object. -/
  | scalar (token : Token)
  | list (items : List Value) (span : Span)
deriving Repr, Inhabited

namespace Value

/-- The type of a value. The null value has none. -/
def type? : Value → Option TokenType
  | boolean _ => some .boolean
  | null => none
  | scalar token => token.type
  | list _ _ => some .array

/-- The text that a value covers, where that is known. -/
def span? : Value → Option Span
  | boolean _ | null => none
  | scalar token => some token.span
  | list _ span => some span

end Value

/-- What an argument is given. -/
inductive ArgumentValue where
  | literal (value : Value)
  /-- A variable, by its name. -/
  | reference (variableName : Token)
deriving Repr, Inhabited

end GraphQLSyntax
