/-!
# Lexemes

What a stretch of source text can be classified as. The kinds fall into groups: control, atoms,
structural punctuation, literal values, and the keywords of executable and of schema documents.

* `Lexeme.spelling?`: the text of a keyword.
* `Lexeme.punctuator?`: the character of a structural lexeme.

A name only becomes a keyword where the grammar asks for one, so scanning alone never yields the
keyword kinds.
-/

namespace GraphQLSyntax

/-- The kinds of lexeme. -/
inductive Lexeme where
  | eof
  | unknown
  | name
  | comment
  /-- The `$` before a variable name. -/
  | dollar
  /-- The `@` before a directive name. -/
  | atSign
  | curlyOpen
  | curlyClose
  | parenOpen
  | parenClose
  | squareOpen
  | squareClose
  | colon
  | equals
  | period
  | int
  | float
  | string
  | trueValue
  | falseValue
  | nullValue
  | enum
  | list
  | object
  | blockString
  | query
  | mutation
  | subscription
  | fragment
  | onKeyword
  | schema
  | directiveKeyword
  | enumKeyword
  | input
  | interface
  | scalar
  | type
  | union
  | extend
  | implements
  | repeatable
deriving DecidableEq, Repr, Inhabited

namespace Lexeme

/-! ## Groups -/

/-- End of input, or text that fits no kind. -/
def isControl : Lexeme → Bool
  | eof | unknown => true
  | _ => false

/-- Names, comments and the two sigils. -/
def isAtom : Lexeme → Bool
  | name | comment | dollar | atSign => true
  | _ => false

/-- The nine punctuators. -/
def isStructure : Lexeme → Bool
  | curlyOpen | curlyClose | parenOpen | parenClose | squareOpen | squareClose | colon | equals
  | period => true
  | _ => false

/-- The kinds of literal value. -/
def isValue : Lexeme → Bool
  | int | float | string | trueValue | falseValue | nullValue | enum | list | object
  | blockString => true
  | _ => false

/-- The keywords that start an operation. -/
def isOperationKeyword : Lexeme → Bool
  | query | mutation | subscription => true
  | _ => false

/-- The keywords of executable documents. -/
def isExecutionKeyword : Lexeme → Bool
  | query | mutation | subscription | fragment | onKeyword => true
  | _ => false

/-- The keywords of schema documents. -/
def isDefinitionKeyword : Lexeme → Bool
  | schema | directiveKeyword | enumKeyword | input | interface | scalar | type | union | extend
  | implements | repeatable => true
  | _ => false

/-! ## Spellings -/

/-- How a keyword is written. -/
def spelling? : Lexeme → Option String
  | trueValue => some "true"
  | falseValue => some "false"
  | nullValue => some "null"
  | query => some "query"
  | mutation => some "mutation"
  | subscription => some "subscription"
  | fragment => some "fragment"
  | onKeyword => some "on"
  | schema => some "schema"
  | directiveKeyword => some "directive"
  | enumKeyword => some "enum"
  | input => some "input"
  | interface => some "interface"
  | scalar => some "scalar"
  | type => some "type"
  | union => some "union"
  | extend => some "extend"
  | implements => some "implements"
  | repeatable => some "repeatable"
  | _ => none

/-- The character of a structural lexeme. -/
def punctuator? : Lexeme → Option Char
  | curlyOpen => some '{'
  | curlyClose => some '}'
  | parenOpen => some '('
  | parenClose => some ')'
  | squareOpen => some '['
  | squareClose => some ']'
  | colon => some ':'
  | equals => some '='
  | period => some '.'
  | _ => none

/-- The name of a kind, as listings and serialized tokens show it. -/
def label : Lexeme → String
  | eof => "Eof"
  | unknown => "Unknown"
  | name => "Name"
  | comment => "Comment"
  | dollar => "Variable"
  | atSign => "Directive"
  | curlyOpen => "CurlyOpen"
  | curlyClose => "CurlyClose"
  | parenOpen => "ParenOpen"
  | parenClose => "ParenClose"
  | squareOpen => "SquareBracketOpen"
  | squareClose => "SquareBracketClose"
  | colon => "Colon"
  | equals => "Equals"
  | period => "Period"
  | int => "Int"
  | float => "Float"
  | string => "String"
  | trueValue => "True"
  | falseValue => "False"
  | nullValue => "Null"
  | enum => "Enum"
  | list => "List"
  | object => "Object"
  | blockString => "BlockString"
  | query => "Query"
  | mutation => "Mutation"
  | subscription => "Subscription"
  | fragment => "Fragment"
  | onKeyword => "On"
  | schema => "Schema"
  | directiveKeyword => "DirectiveKeyword"
  | enumKeyword => "EnumKeyword"
  | input => "Input"
  | interface => "Interface"
  | scalar => "Scalar"
  | type => "Type"
  | union => "Union"
  | extend => "Extend"
  | implements => "Implements"
  | repeatable => "Repeatable"

/-- Every kind, group after group. -/
def all : List Lexeme :=
  [eof, unknown, name, comment, dollar, atSign, curlyOpen, curlyClose, parenOpen, parenClose,
    squareOpen, squareClose, colon, equals, period, int, float, string, trueValue, falseValue,
    nullValue, enum, list, object, blockString, query, mutation, subscription, fragment, onKeyword,
    schema, directiveKeyword, enumKeyword, input, interface, scalar, type, union, extend,
    implements, repeatable]

/-- The kind with the given label. -/
def ofLabel? (text : String) : Option Lexeme := all.find? fun l => l.label == text

/-- Labels tell the kinds apart, and `all` misses none. -/
theorem ofLabel?_label (l : Lexeme) : ofLabel? l.label = some l := by cases l <;> rfl

end Lexeme

end GraphQLSyntax
