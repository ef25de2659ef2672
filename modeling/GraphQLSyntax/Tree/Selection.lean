import GraphQLSyntax.Tree.Value

/-!
# Selections

What a document asks for: fields with their arguments, and the fragments that are spread among them.

* `Selection.responseKey?`: the key that a field's result is returned under.
* `Selection.fieldCount`: the fields of a selection, at every depth.
-/

namespace GraphQLSyntax

/-- A named argument of a field or a directive. -/
structure Argument where
  name : Token
  value : ArgumentValue
  span : Span
deriving Repr, Inhabited

/-- An `@` directive. Its name starts at the sigil and leaves it out of its text. -/
structure Directive where
  name : Token
  arguments : List Argument
  span : Span
deriving Repr, Inhabited

/-- A selection. -/
inductive Selection where
  /-- A field. It has no selections of its own where none are written. -/
  | field (aliasName : Option Token) (name : Token) (arguments : List Argument)
      (directives : List Directive) (selections : List Selection) (span : Span)
  /-- A fragment, spread by its name. -/
  | fragmentSpread (name : Token) (directives : List Directive) (span : Span)
  /-- A fragment that is written where it is spread. -/
  | inlineFragment (typeCondition : Option Token) (directives : List Directive)
      (selections : List Selection) (span : Span)
deriving Repr, Inhabited

namespace Selection

/-- The text that a selection covers. -/
def span : Selection → Span
  | field _ _ _ _ _ span | fragmentSpread _ _ span | inlineFragment _ _ _ span => span

/-- The key that a field's result is returned under: its alias, or else its name. -/
def responseKey? : Selection → Option String
  | field aliasName name _ _ _ _ => some (aliasName.getD name).text
  | _ => none

mutual

/-- The number of fields in a selection, itself included. -/
def fieldCount : Selection → Nat
  | field _ _ _ _ selections _ => fieldCountAll selections + 1
  | fragmentSpread _ _ _ => 0
  | inlineFragment _ _ selections _ => fieldCountAll selections

/-- The number of fields in some selections. -/
def fieldCountAll : List Selection → Nat
  | [] => 0
  | s :: rest => s.fieldCount + fieldCountAll rest

end

end Selection

end GraphQLSyntax
