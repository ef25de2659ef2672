import GraphQLSyntax.Tree.Outline

/-!
# The parts of a tree

A `Part` is a node of a tree, or a token in one.

* `Node.parts`: what a node is made of, in the order in which it is written.
* `Part.Contains`: a part lies in another, at any depth.
* `Part.contains_induction`: what holds of a part and goes over to what it is made of holds of
  everything in it.
-/

namespace GraphQLSyntax

/-- A node or a token of a tree. -/
inductive Part where
  | node (node : Node)
  | token (token : Token)
  /-- The name behind a `$` or an `@`. It starts at the sigil and leaves it out of its text. -/
  | sigilName (sigil : Char) (token : Token)
deriving Inhabited

/-- A definition as a node. -/
def Definition.node : Definition → Node
  | operation o => .operation o
  | fragment f => .fragment f

namespace Node

/-- The parts of a value. The literals `true`, `false` and `null` keep no token. -/
def valueParts : Value → List Part
  | .boolean _ | .null => []
  | .scalar token => [.token token]
  | .list items _ => items.map fun v => .node (.value v)

/-- The parts of a selection. -/
def selectionParts : Selection → List Part
  | .field aliasName name arguments directives selections _ =>
    aliasName.toList.map .token ++ .token name :: (arguments.map (fun a => .node (.argument a)) ++
      directives.map (fun d => .node (.directive d)) ++
      selections.map fun s => .node (.selection s))
  | .fragmentSpread name directives _ =>
    .token name :: directives.map fun d => .node (.directive d)
  | .inlineFragment typeCondition directives selections _ =>
    typeCondition.toList.map .token ++ directives.map (fun d => .node (.directive d)) ++
      selections.map fun s => .node (.selection s)

/-- What a node is made of, in the order in which it is written. -/
def parts : Node → List Part
  | operation o =>
    o.keyword.toList.map .token ++ o.name.toList.map .token ++
      o.variableDefinitions.map (fun v => .node (.variableDefinition v)) ++
      o.directives.map (fun d => .node (.directive d)) ++
      o.selections.map fun s => .node (.selection s)
  | fragment f =>
    .token f.name :: .token f.typeCondition ::
      (f.directives.map (fun d => .node (.directive d)) ++
        f.selections.map fun s => .node (.selection s))
  | variableDefinition v =>
    .sigilName '$' v.name :: .node (.typeRef v.type) ::
      (v.default.toList.map (fun x => .node (.value x)) ++
        v.directives.map fun d => .node (.directive d))
  | typeRef t => [.token t.name]
  | directive d => .sigilName '@' d.name :: d.arguments.map fun a => .node (.argument a)
  | argument a => [.token a.name, match a.value with
    | .literal v => .node (.value v)
    | .reference variableName => .node (.reference variableName)]
  | reference variableName => [.sigilName '$' variableName]
  | value v => valueParts v
  | selection s => selectionParts s

end Node

namespace Part

/-- What a part is made of. A token is made of nothing. -/
def parts : Part → List Part
  | node n => n.parts
  | token _ | sigilName _ _ => []

/-- The text that a part covers, where that is known. -/
def span? : Part → Option Span
  | node n => n.span?
  | token t | sigilName _ t => some t.span

/-- A part lies in another, or is that part itself. -/
inductive Contains : Part → Part → Prop where
  | self (p : Part) : Contains p p
  | part {p q r : Part} (hq : q ∈ p.parts) (h : Contains q r) : Contains p r

/-- What goes over from a part to what it is made of goes over to everything in it. -/
theorem contains_induction {P : Part → Prop} (step : ∀ p, P p → ∀ q ∈ p.parts, P q) {p q : Part}
    (h : Contains p q) (hp : P p) : P q := by
  induction h with
  | self => exact hp
  | part hq _ ih => exact ih (step _ hp _ hq)

end Part

/-- The definitions of a document as parts, in the order in which they are written. -/
def Document.parts (d : Document) : List Part := d.definitions.map fun x => .node x.node

end GraphQLSyntax
