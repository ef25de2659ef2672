import GraphQLSyntax.Tree.Document

/-!
# Serialized trees

The form in which trees are handed to other programs: records of named fields, in which a choice
between sorts is a record with the name of the sort as its only field.

* `Datum`: plain data.
* `Document.toDatum`, `TypeRef.toDatum`, `Value.toDatum`: trees as plain data.
-/

namespace GraphQLSyntax

/-- Plain data. -/
inductive Datum where
  | null
  | boolean (value : Bool)
  | number (value : Nat)
  | text (value : String)
  | list (items : List Datum)
  | record (fields : List (String × Datum))
deriving Repr, Inhabited

namespace Datum

/-- A choice of the sort with the given name. -/
def tagged (sort : String) (content : Datum) : Datum := record [(sort, content)]

/-- What may be missing. -/
def optional {α : Type} (toDatum : α → Datum) : Option α → Datum
  | none => null
  | some a => toDatum a

/-- One datum after the other. -/
def ofList {α : Type} (toDatum : α → Datum) (items : List α) : Datum := list (items.map toDatum)

end Datum

/-- A position as plain data. -/
def Position.toDatum (p : Position) : Datum :=
  .record [("line", .number p.line), ("column", .number p.column),
    ("byte_offset", .number p.byteOffset)]

/-- A span as plain data. -/
def Span.toDatum (s : Span) : Datum :=
  .record [("start_inclusive", s.start.toDatum), ("end_exclusive", s.stop.toDatum)]

/-- A token as plain data. -/
def Token.toDatum (t : Token) : Datum :=
  .record [("lexeme", .text t.lexeme.label), ("text", .text t.text), ("span", t.span.toDatum),
    ("token_type", .optional (fun type => .text type.label) t.type)]

/-- A type reference as plain data: its lists and marks are given as numbers. -/
def TypeRef.toDatum (t : TypeRef) : Datum :=
  .record [("name", t.name.toDatum), ("list_dimensions", .number t.dimensions),
    ("nullability", .number t.mask), ("span", t.span.toDatum)]

mutual

/-- A value as plain data. -/
def Value.toDatum : Value → Datum
  | .boolean b => .tagged "Boolean" (.boolean b)
  | .null => .text "Null"
  | .scalar token => .tagged "Scalar" token.toDatum
  | .list items span =>
    .tagged "List" (.record [("items", .list (Value.toData items)), ("span", span.toDatum)])

/-- Some values as plain data. -/
def Value.toData : List Value → List Datum
  | [] => []
  | v :: rest => v.toDatum :: Value.toData rest

end

/-- What an argument is given as plain data. -/
def ArgumentValue.toDatum : ArgumentValue → Datum
  | literal value => .tagged "Value" value.toDatum
  | reference variableName => .tagged "Variable" variableName.toDatum

/-- An argument as plain data. -/
def Argument.toDatum (a : Argument) : Datum :=
  .record [("name", a.name.toDatum), ("value", a.value.toDatum), ("span", a.span.toDatum)]

/-- A directive as plain data. -/
def Directive.toDatum (d : Directive) : Datum :=
  .record [("name", d.name.toDatum), ("arguments", .ofList Argument.toDatum d.arguments),
    ("span", d.span.toDatum)]

mutual

/-- A selection as plain data. Both sorts of spread are spreads of their own sort. -/
def Selection.toDatum : Selection → Datum
  | .field aliasName name arguments directives selections span =>
    .tagged "Field" (.record [("alias", .optional Token.toDatum aliasName),
      ("name", name.toDatum), ("arguments", .ofList Argument.toDatum arguments),
      ("directives", .ofList Directive.toDatum directives),
      ("selections", .list (Selection.toData selections)), ("span", span.toDatum)])
  | .fragmentSpread name directives span =>
    .tagged "Spread" (.tagged "Named" (.record [("name", name.toDatum),
      ("directives", .ofList Directive.toDatum directives), ("span", span.toDatum)]))
  | .inlineFragment typeCondition directives selections span =>
    .tagged "Spread" (.tagged "Inline" (.record [
      ("type_condition", .optional Token.toDatum typeCondition),
      ("directives", .ofList Directive.toDatum directives),
      ("selections", .list (Selection.toData selections)), ("span", span.toDatum)]))

/-- Some selections as plain data. -/
def Selection.toData : List Selection → List Datum
  | [] => []
  | s :: rest => s.toDatum :: Selection.toData rest

end

/-- A variable definition as plain data. -/
def VariableDefinition.toDatum (v : VariableDefinition) : Datum :=
  .record [("name", v.name.toDatum), ("var_type", v.type.toDatum),
    ("default_value", .optional Value.toDatum v.default),
    ("directives", .ofList Directive.toDatum v.directives), ("span", v.span.toDatum)]

/-- An operation as plain data, with its header spread out. -/
def Operation.toDatum (o : Operation) : Datum :=
  .record [("kind", .text o.kind.label), ("keyword", .optional Token.toDatum o.keyword),
    ("name", .optional Token.toDatum o.name),
    ("variables", .ofList VariableDefinition.toDatum o.variableDefinitions),
    ("directives", .ofList Directive.toDatum o.directives),
    ("selections", .list (Selection.toData o.selections)), ("span", o.span.toDatum)]

/-- A fragment as plain data. -/
def Fragment.toDatum (f : Fragment) : Datum :=
  .record [("name", f.name.toDatum), ("type_condition", f.typeCondition.toDatum),
    ("directives", .ofList Directive.toDatum f.directives),
    ("selections", .list (Selection.toData f.selections)), ("span", f.span.toDatum)]

/-- A document as plain data, its operations apart from its fragments. -/
def Document.toDatum (d : Document) : Datum :=
  .record [("operations", .ofList Operation.toDatum d.operations),
    ("fragments", .ofList Fragment.toDatum d.fragments), ("span", d.span.toDatum)]

end GraphQLSyntax
