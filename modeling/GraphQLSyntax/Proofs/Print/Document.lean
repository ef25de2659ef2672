import GraphQLSyntax.Proofs.Grammar.Spelling
import GraphQLSyntax.Proofs.Lexical.Literal

/-!
# Printing documents

A document is printed as its terminals, with one space between any two of them. Its positions play
no part in this.

* `Document.terminals`: the terminals of a document. Every definition has braces, and there are no
  empty parentheses.
* `Document.print`: the printed text.
* `Document.WellFormed`: what can be printed so that it is read back.
-/

namespace GraphQLSyntax

namespace Terminal

/-- The name `text`, where it has a meaning of its own. -/
def keyword (text : String) : Terminal := .lexeme .name text

/-- The opening brackets of a type. -/
def openings : (brackets : Nat) → List Terminal
  | 0 => []
  | brackets + 1 => .lexeme .squareOpen "[" :: List.replicate brackets (.mark '[')

@[simp] theorem length_openings (brackets : Nat) : (openings brackets).length = brackets := by
  cases brackets <;> simp [openings]

/-- Each of them is written as one bracket. -/
theorem map_chars_openings (brackets : Nat) :
    (openings brackets).map chars = List.replicate brackets ['['] := by
  cases brackets with
  | zero => rfl
  | succ brackets =>
    rw [openings, List.map_cons, List.map_replicate, List.replicate_succ]
    rfl

/-- Some terminals between braces. -/
def braced (ts : List Terminal) : List Terminal :=
  .lexeme .curlyOpen "\x7b" :: (ts ++ [.lexeme .curlyClose "\x7d"])

/-- Some terminals between parentheses, which are left out around nothing. -/
def parenthesised (ts : List Terminal) : List Terminal :=
  if ts.isEmpty then [] else .lexeme .parenOpen "(" :: (ts ++ [.lexeme .parenClose ")"])

end Terminal

/-! ## Types and values -/

/-- The mark behind a type, where it is marked. -/
def Wrapping.marks (nonNull : Bool) : List Char := if nonNull then ['!'] else []

/-- The brackets and marks behind the name of a type, from the inside out. -/
def Wrapping.closings : Wrapping → List Char
  | named nonNull => marks nonNull
  | list nonNull items => items.closings ++ ']' :: marks nonNull

def TypeRef.terminals (t : TypeRef) : List Terminal :=
  Terminal.openings t.dimensions ++ t.name.terminal :: t.wrapping.closings.map .mark

mutual

def Value.terminals : Value → List Terminal
  | .boolean true => [.keyword "true"]
  | .boolean false => [.keyword "false"]
  | .null => [.keyword "null"]
  | .scalar token => [token.terminal]
  | .list items _ =>
    .lexeme .squareOpen "[" :: (Value.terminalsAll items ++ [.lexeme .squareClose "]"])

/-- The terminals of some values. -/
def Value.terminalsAll : List Value → List Terminal
  | [] => []
  | v :: rest => v.terminals ++ Value.terminalsAll rest

end

/-! ## Selections -/

def ArgumentValue.terminals : ArgumentValue → List Terminal
  | literal v => v.terminals
  | reference variableName => [.sigilName '$' variableName.text]

def Argument.terminals (a : Argument) : List Terminal :=
  a.name.terminal :: .lexeme .colon ":" :: a.value.terminals

def Directive.terminals (d : Directive) : List Terminal :=
  .sigilName '@' d.name.text :: Terminal.parenthesised (d.arguments.flatMap Argument.terminals)

mutual

def Selection.terminals : Selection → List Terminal
  | .field aliasName name arguments directives selections _ =>
    aliasName.toList.flatMap (fun t => [t.terminal, .lexeme .colon ":"]) ++ name.terminal ::
      (Terminal.parenthesised (arguments.flatMap Argument.terminals) ++
        (directives.flatMap Directive.terminals ++ if selections.isEmpty then [] else
          Terminal.braced (Selection.terminalsAll selections)))
  | .fragmentSpread name directives _ =>
    .spread :: name.terminal :: directives.flatMap Directive.terminals
  | .inlineFragment typeCondition directives selections _ =>
    .spread :: (typeCondition.toList.flatMap (fun t => [.keyword "on", t.terminal]) ++
      (directives.flatMap Directive.terminals ++
        Terminal.braced (Selection.terminalsAll selections)))

/-- The terminals of some selections. -/
def Selection.terminalsAll : List Selection → List Terminal
  | [] => []
  | s :: rest => s.terminals ++ Selection.terminalsAll rest

end

/-! ## Definitions -/

def VariableDefinition.terminals (v : VariableDefinition) : List Terminal :=
  .sigilName '$' v.name.text :: .lexeme .colon ":" :: (v.type.terminals ++
    (v.default.toList.flatMap (fun x => .lexeme .equals "=" :: x.terminals) ++
      v.directives.flatMap Directive.terminals))

def Definition.terminals : Definition → List Terminal
  | operation ⟨none, selections, _⟩ => Terminal.braced (Selection.terminalsAll selections)
  | operation ⟨some header, selections, _⟩ =>
    header.keyword.terminal :: (header.name.toList.map Token.terminal ++
      (Terminal.parenthesised (header.variableDefinitions.flatMap VariableDefinition.terminals) ++
        (header.directives.flatMap Directive.terminals ++
          Terminal.braced (Selection.terminalsAll selections))))
  | fragment f =>
    .keyword "fragment" :: f.name.terminal :: .keyword "on" :: f.typeCondition.terminal ::
      (f.directives.flatMap Directive.terminals ++
        Terminal.braced (Selection.terminalsAll f.selections))

namespace Document

/-- The terminals that a document is printed with. -/
def terminals (d : Document) : List Terminal := d.definitions.flatMap Definition.terminals

/-- The printed text of a document. -/
def print (d : Document) : String :=
  String.ofList ([' '].intercalate (d.terminals.map Terminal.chars))

end Document

/-! ## What can be printed -/

/-- The text of a token is all of a lexeme, or of an object literal, of its kind. -/
def Token.IsWhole (t : Token) : Prop :=
  match t.lexeme with
  | .name | .enum | .query | .mutation | .subscription => Lexical.IsName t.text.toList
  | .int | .float | .string | .blockString =>
    Lexical.classify t.text.toList = (t.lexeme, t.text.toList)
  | .object => ∃ body, t.text.toList = '{' :: body ∧ Lexical.braced 0 body = (.object, body)
  | _ => False

/-- What the grammar asks of a part, and of the text of a token. -/
def Part.WellFormed : Part → Prop
  | node n => n.WellFormed
  | token t => t.IsWhole
  | sigilName _ t => Lexical.IsName t.text.toList

/-- Everything in a part is well formed. -/
def Part.WellFormedWithin (p : Part) : Prop := ∀ q, p.Contains q → q.WellFormed

/-- Everything in a document is well formed. -/
def Document.WellFormed (d : Document) : Prop := ∀ p ∈ d.parts, p.WellFormedWithin

namespace Part

variable {p q : Part} {n : Node} {t : Token}

theorem WellFormedWithin.self (h : p.WellFormedWithin) : p.WellFormed := h p (.self p)

theorem WellFormedWithin.part (h : p.WellFormedWithin) (hq : q ∈ p.parts) : q.WellFormedWithin :=
  fun r hr => h r (.part hq hr)

theorem wellFormedWithin_iff :
    p.WellFormedWithin ↔ p.WellFormed ∧ ∀ q ∈ p.parts, q.WellFormedWithin := by
  refine ⟨fun h => ⟨h.self, fun q hq => h.part hq⟩, fun h r hr => ?_⟩
  cases hr with
  | self => exact h.1
  | part hq hr => exact h.2 _ hq r hr

@[simp] theorem wellFormedWithin_node :
    (node n).WellFormedWithin ↔ n.WellFormed ∧ ∀ q ∈ n.parts, q.WellFormedWithin :=
  wellFormedWithin_iff

@[simp] theorem wellFormedWithin_token : (token t).WellFormedWithin ↔ t.IsWhole := by
  rw [wellFormedWithin_iff]
  simp [parts, WellFormed]

@[simp] theorem wellFormedWithin_sigilName {sigil : Char} :
    (sigilName sigil t).WellFormedWithin ↔ Lexical.IsName t.text.toList := by
  rw [wellFormedWithin_iff]
  simp [parts, WellFormed]

end Part

end GraphQLSyntax
