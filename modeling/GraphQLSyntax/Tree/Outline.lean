import GraphQLSyntax.Text.Slice
import GraphQLSyntax.Tree.Document

/-!
# Outlines

A tree as a flat list of its nodes, each after its parent, with its depth.

* `Document.outline`: the nodes of a document, its operations first and then its fragments.
* `Value.outline`: the nodes of a value.
* `Node.span?`, `Span.slice`: the text that a node covers.
-/

namespace GraphQLSyntax

/-- The text that a span covers. Nothing where the span cuts a character. -/
def Span.slice (s : Span) (text : String) : String :=
  (Text.slice? text s.start.byteOffset s.stop.byteOffset).getD ""

/-- A part of a tree. -/
inductive Node where
  | operation (operation : Operation)
  | fragment (fragment : Fragment)
  | variableDefinition (definition : VariableDefinition)
  | typeRef (type : TypeRef)
  | directive (directive : Directive)
  | argument (argument : Argument)
  | reference (variableName : Token)
  | value (value : Value)
  | selection (selection : Selection)
deriving Repr, Inhabited

/-- The text that a node covers, where that is known. -/
def Node.span? : Node → Option Span
  | operation o => some o.span
  | fragment f => some f.span
  | variableDefinition v => some v.span
  | typeRef t => some t.span
  | directive d => some d.span
  | argument a => some a.span
  | reference token => some token.span
  | value v => v.span?
  | selection s => some s.span

/-- The nodes of a tree in order, each with its depth. -/
abbrev Outline := List (Nat × Node)

mutual

/-- The nodes of a value. -/
def Value.outline (depth : Nat) : Value → Outline
  | .boolean b => [(depth, .value (.boolean b))]
  | .null => [(depth, .value .null)]
  | .scalar token => [(depth, .value (.scalar token))]
  | .list items span => (depth, .value (.list items span)) :: Value.outlineAll (depth + 1) items

/-- The nodes of some values. -/
def Value.outlineAll (depth : Nat) : List Value → Outline
  | [] => []
  | v :: rest => v.outline depth ++ Value.outlineAll depth rest

end

/-- The nodes of an argument. -/
def Argument.outline (depth : Nat) (a : Argument) : Outline :=
  (depth, .argument a) :: match a.value with
    | .literal v => v.outline (depth + 1)
    | .reference variableName => [(depth + 1, .reference variableName)]

/-- The nodes of a directive. -/
def Directive.outline (depth : Nat) (d : Directive) : Outline :=
  (depth, .directive d) :: d.arguments.flatMap (Argument.outline (depth + 1))

mutual

/-- The nodes of a selection. -/
def Selection.outline (depth : Nat) : Selection → Outline
  | .field aliasName name arguments directives selections span =>
    (depth, .selection (.field aliasName name arguments directives selections span)) ::
      (arguments.flatMap (Argument.outline (depth + 1)) ++
        directives.flatMap (Directive.outline (depth + 1)) ++
        Selection.outlineAll (depth + 1) selections)
  | .fragmentSpread name directives span =>
    (depth, .selection (.fragmentSpread name directives span)) ::
      directives.flatMap (Directive.outline (depth + 1))
  | .inlineFragment typeCondition directives selections span =>
    (depth, .selection (.inlineFragment typeCondition directives selections span)) ::
      (directives.flatMap (Directive.outline (depth + 1)) ++
        Selection.outlineAll (depth + 1) selections)

/-- The nodes of some selections. -/
def Selection.outlineAll (depth : Nat) : List Selection → Outline
  | [] => []
  | s :: rest => s.outline depth ++ Selection.outlineAll depth rest

end

/-- The nodes of a variable definition. -/
def VariableDefinition.outline (depth : Nat) (v : VariableDefinition) : Outline :=
  (depth, .variableDefinition v) :: (depth + 1, .typeRef v.type) ::
    ((v.default.map (Value.outline (depth + 1))).getD [] ++
      v.directives.flatMap (Directive.outline (depth + 1)))

/-- The nodes of an operation. -/
def Operation.outline (depth : Nat) (o : Operation) : Outline :=
  (depth, .operation o) ::
    (o.variableDefinitions.flatMap (VariableDefinition.outline (depth + 1)) ++
      o.directives.flatMap (Directive.outline (depth + 1)) ++
      Selection.outlineAll (depth + 1) o.selections)

/-- The nodes of a fragment. -/
def Fragment.outline (depth : Nat) (f : Fragment) : Outline :=
  (depth, .fragment f) ::
    (f.directives.flatMap (Directive.outline (depth + 1)) ++
      Selection.outlineAll (depth + 1) f.selections)

/-- The nodes of a document. -/
def Document.outline (d : Document) : Outline :=
  d.operations.flatMap (Operation.outline 0) ++ d.fragments.flatMap (Fragment.outline 0)

end GraphQLSyntax
