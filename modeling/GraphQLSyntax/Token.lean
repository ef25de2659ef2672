import GraphQLSyntax.Lexeme.Basic
import GraphQLSyntax.Text.Position

/-!
# Tokens

A `Token` is a lexeme found in a text: its kind, its text, where it stands, and for literals the
type of value it denotes.

* `TokenType.ofLexeme?`: the type a literal lexeme denotes. `null` denotes none.
* `Token.render`: the written form for logs and messages.
-/

namespace GraphQLSyntax

/-- The type of value a token denotes. -/
inductive TokenType where
  | int
  | float
  | string
  | boolean
  | enum
  | array
  | object
  | blockString
  /-- The name of a `$` variable in a value position. -/
  | variableName
deriving DecidableEq, Repr, Inhabited

namespace TokenType

/-- The type that a literal lexeme denotes. -/
def ofLexeme? : Lexeme → Option TokenType
  | .int => some int
  | .float => some float
  | .string => some string
  | .trueValue | .falseValue => some boolean
  | .enum => some enum
  | .list => some array
  | .object => some object
  | .blockString => some blockString
  | _ => none

/-- The name of a type in messages. -/
def render : TokenType → String
  | int => "int"
  | float => "float"
  | string => "string"
  | boolean => "boolean"
  | enum => "enum"
  | array => "array"
  | object => "object"
  | blockString => "blockstring"
  | variableName => "variable"

/-- The name of a type in serialized tokens. -/
def label : TokenType → String
  | int => "Int"
  | float => "Float"
  | string => "String"
  | boolean => "Boolean"
  | enum => "Enum"
  | array => "Array"
  | object => "Object"
  | blockString => "BlockString"
  | variableName => "Variable"

/-- Every type, in the order in which they are listed. -/
def all : List TokenType :=
  [int, float, string, boolean, enum, array, object, blockString, variableName]

end TokenType

/-- A lexeme found in a text. The text of a variable or directive name leaves out its sigil, which
its span covers. -/
structure Token where
  lexeme : Lexeme
  text : String
  span : Span
  type : Option TokenType
deriving DecidableEq, Repr, Inhabited

namespace Token

/-- A token without a type. -/
def plain (lexeme : Lexeme) (text : String) (span : Span) : Token := ⟨lexeme, text, span, none⟩

/-- A literal, with the type that its lexeme denotes. -/
def literal (lexeme : Lexeme) (text : String) (span : Span) : Token :=
  ⟨lexeme, text, span, TokenType.ofLexeme? lexeme⟩

/-- Whether a token denotes values of the given type. -/
def hasType (t : Token) (type : TokenType) : Bool := t.type == some type

/-- The written form `<Token [type] text>`, without the type where there is none. -/
def render (t : Token) : String :=
  match t.type with
  | some type => "<Token [" ++ type.render ++ "] " ++ t.text ++ ">"
  | none => "<Token " ++ t.text ++ ">"

end Token

end GraphQLSyntax
