import GraphQLSyntax.Tree.Selection
import GraphQLSyntax.Tree.TypeRef

/-!
# Executable documents

A document is a list of operations and fragments, in the order in which they are written.

* `Document.operations`, `Document.fragments`: the definitions of one sort.
* `Document.operation?`, `Document.fragment?`: the first definition of a name.
* `Document.fieldCount`: the fields of a document, at every depth.
-/

namespace GraphQLSyntax

/-- The sorts of operation. -/
inductive OperationKind where
  | query
  | mutation
  | subscription
deriving DecidableEq, Repr, Inhabited

namespace OperationKind

/-- The kind that a keyword introduces. -/
def ofLexeme? : Lexeme → Option OperationKind
  | .query => some query
  | .mutation => some mutation
  | .subscription => some subscription
  | _ => none

/-- The keyword that introduces a kind. -/
def render : OperationKind → String
  | query => "query"
  | mutation => "mutation"
  | subscription => "subscription"

/-- The name of a kind in serialized documents. -/
def label : OperationKind → String
  | query => "Query"
  | mutation => "Mutation"
  | subscription => "Subscription"

end OperationKind

/-- The definition of a variable of an operation. Its name starts at the `$` and leaves it out of
its text. -/
structure VariableDefinition where
  name : Token
  type : TypeRef
  default : Option Value
  directives : List Directive
  span : Span
deriving Repr, Inhabited

/-- What an operation says before its selections. -/
structure OperationHeader where
  kind : OperationKind
  keyword : Token
  name : Option Token
  variableDefinitions : List VariableDefinition
  directives : List Directive
deriving Repr, Inhabited

/-- An operation. One without a header is a query written as its selections alone. -/
structure Operation where
  header : Option OperationHeader
  selections : List Selection
  span : Span
deriving Repr, Inhabited

namespace Operation

/-- The sort of operation. -/
def kind (o : Operation) : OperationKind := (o.header.map (·.kind)).getD .query

/-- The keyword, where there is one. -/
def keyword (o : Operation) : Option Token := o.header.map (·.keyword)

/-- The name, where there is one. -/
def name (o : Operation) : Option Token := o.header.bind (·.name)

/-- The variables that the operation takes. -/
def variableDefinitions (o : Operation) : List VariableDefinition :=
  (o.header.map (·.variableDefinitions)).getD []

/-- The directives of the operation itself. -/
def directives (o : Operation) : List Directive := (o.header.map (·.directives)).getD []

/-- Whether the operation is written as its selections alone. -/
def isShorthand (o : Operation) : Bool := o.header.isNone

end Operation

/-- A fragment that can be spread by its name. -/
structure Fragment where
  name : Token
  typeCondition : Token
  directives : List Directive
  selections : List Selection
  span : Span
deriving Repr, Inhabited

/-- A top-level definition. -/
inductive Definition where
  | operation (operation : Operation)
  | fragment (fragment : Fragment)
deriving Repr, Inhabited

namespace Definition

/-- The text that a definition covers. -/
def span : Definition → Span
  | operation o => o.span
  | fragment f => f.span

/-- The selections of a definition. -/
def selections : Definition → List Selection
  | operation o => o.selections
  | fragment f => f.selections

/-- The operation, where it is one. -/
def operation? : Definition → Option Operation
  | operation o => some o
  | fragment _ => none

/-- The fragment, where it is one. -/
def fragment? : Definition → Option Fragment
  | operation _ => none
  | fragment f => some f

end Definition

/-- An executable document. -/
structure Document where
  definitions : List Definition
  span : Span
deriving Repr, Inhabited

namespace Document

/-- The operations, in the order in which they are written. -/
def operations (d : Document) : List Operation := d.definitions.filterMap Definition.operation?

/-- The fragments, in the order in which they are written. -/
def fragments (d : Document) : List Fragment := d.definitions.filterMap Definition.fragment?

/-- Whether there are no definitions. -/
def isEmpty (d : Document) : Bool := d.definitions.isEmpty

/-- The first operation of the given name. -/
def operation? (d : Document) (name : String) : Option Operation :=
  d.operations.find? fun o => o.name.any fun token => token.text == name

/-- The first fragment of the given name. -/
def fragment? (d : Document) (name : String) : Option Fragment :=
  d.fragments.find? fun f => f.name.text == name

/-- The number of fields, at every depth. -/
def fieldCount (d : Document) : Nat :=
  d.definitions.foldl (fun n definition => n + Selection.fieldCountAll definition.selections) 0

end Document

end GraphQLSyntax
