import GraphQLSyntax.Grammar.Selection
import GraphQLSyntax.Grammar.TypeRef
import GraphQLSyntax.Tree.Document

/-!
# Reading documents

* `Document.attempt`: the definitions at the front of a text, and what came of the text as a whole.
* `Document.parse`, `TypeRef.parse`, `Value.parse`: a text as a whole.
-/

namespace GraphQLSyntax

namespace Reader

/-! ## Variables -/

/-- Reads the default that a variable may have. -/
def defaultValue : Reader (Option Value) :=
  whenAt .equals none do
    let _ ← expect .equals ["="]
    let value ← value
    return some value

theorem forward_defaultValue : defaultValue.Forward :=
  Forward.whenAt _ _ <| (Advances.expect (by decide) _).forward.bind fun _ =>
    advances_value.forward.bind fun _ => Forward.pure _

/-- Reads the definition of a variable. -/
def variableDefinition : Reader VariableDefinition :=
  spanned do
    let variableName ← sigilName .dollar ["$", ")"] "a variable name"
    let _ ← expect .colon [":"]
    let type ← typeRef
    let default ← defaultValue
    let directives ← directives
    return fun span => ⟨variableName, type, default, directives, span⟩

theorem advances_variableDefinition : variableDefinition.Advances :=
  Advances.spanned <| (Advances.sigilName (by decide) _ _).bind fun _ =>
    (Advances.expect (by decide) _).forward.bind fun _ =>
      advances_typeRef.forward.bind fun _ => forward_defaultValue.bind fun _ =>
        forward_directives.bind fun _ => Forward.pure _

/-- Reads the variables that an operation may take. -/
def variableDefinitions : Reader (List VariableDefinition) :=
  whenAt .parenOpen [] (Production.parenthesised ⟨variableDefinition, advances_variableDefinition⟩)

theorem forward_variableDefinitions : variableDefinitions.Forward :=
  Forward.whenAt _ _ (Production.advances_parenthesised _).forward

/-! ## Operations and fragments -/

/-- Reads the selections of a definition. -/
def ownSelections : Reader (List Selection) :=
  (Production.selectionSet true maxSelectionDepth).read

theorem advances_ownSelections : ownSelections.Advances :=
  (Production.selectionSet true maxSelectionDepth).advances

/-- Reads an operation that is written as its selections alone. -/
def shorthand : Reader Operation :=
  spanned do
    let selections ← ownSelections
    return fun span => ⟨none, selections, span⟩

/-- Reads an operation of the given kind from its keyword on. -/
def operation (kind : OperationKind) (keyword : Lexeme) : Reader Operation :=
  spanned do
    let token ← take
    let operationName ← whenAt .name none do
      let token ← take
      return some token
    let definitions ← variableDefinitions
    let directives ← directives
    let selections ← whenAt .curlyOpen [] ownSelections
    return fun span =>
      ⟨some ⟨kind, { token with lexeme := keyword }, operationName, definitions, directives⟩,
        selections, span⟩

/-- Reads the name of a fragment, which cannot be `on`. -/
def fragmentName : Reader Token := do
  if (← keyword) = .onKeyword then
    fail fun s => ((s.error (.reservedName "on")).withNote
      (.general "a fragment cannot be named `on`")).withNote
      (.spec "https://spec.graphql.org/September2025/#FragmentName")
  else name "a fragment name"

/-- Reads a fragment from its keyword on. -/
def fragment : Reader Fragment :=
  spanned do
    let _ ← take
    let fragmentName ← fragmentName
    let _ ← onKeyword
    let typeCondition ← name "a type name"
    let directives ← directives
    let selections ← whenAt .curlyOpen [] ownSelections
    return fun span => ⟨fragmentName, typeCondition, directives, selections, span⟩

/-- Ends with the error that a name starts no definition. The keywords of schema documents are
refused by name. -/
def failDefinition : Reader Definition := fun r =>
  match (r.scanner.keyword .definition).spelling? with
  | some keyword =>
    .error ((r.scanner.error (.schemaDefinition keyword)).withNote
      (.general "execution documents may only contain operations and fragments"))
  | none => failUnexpected ["an operation", "a fragment"] r

/-- Reads a definition. -/
def definition : Reader Definition := do
  match ← keyword with
  | .curlyOpen =>
    let operation ← shorthand
    return .operation operation
  | .query =>
    let operation ← operation .query .query
    return .operation operation
  | .mutation =>
    let operation ← operation .mutation .mutation
    return .operation operation
  | .subscription =>
    let operation ← operation .subscription .subscription
    return .operation operation
  | .fragment =>
    let fragment ← fragment
    return .fragment fragment
  | .name => failDefinition
  | _ => failUnexpected ["an operation", "a fragment"]

/-! ## Going forward -/

theorem advances_shorthand : shorthand.Advances :=
  Advances.spanned <| advances_ownSelections.bind fun _ => Forward.pure _

theorem AdvancesFrom.operation {r : Reading} (h : r.scanner.lexeme ≠ .eof) (kind : OperationKind)
    (keyword : Lexeme) : (Reader.operation kind keyword).AdvancesFrom r :=
  AdvancesFrom.spanned <| (AdvancesFrom.take h).bind fun _ =>
    (Forward.whenAt _ _ (Forward.take.bind fun _ => Forward.pure _)).bind fun _ =>
      forward_variableDefinitions.bind fun _ => forward_directives.bind fun _ =>
        (Forward.whenAt _ _ advances_ownSelections.forward).bind fun _ => Forward.pure _

theorem forward_fragmentName : fragmentName.Forward :=
  Forward.keyword.bind fun k => by
    split
    · exact (Advances.fail _).forward
    · exact (Advances.name _).forward

theorem AdvancesFrom.fragment {r : Reading} (h : r.scanner.lexeme ≠ .eof) :
    Reader.fragment.AdvancesFrom r :=
  AdvancesFrom.spanned <| (AdvancesFrom.take h).bind fun _ =>
    forward_fragmentName.bind fun _ => forward_onKeyword.bind fun _ =>
      (Advances.name _).forward.bind fun _ => forward_directives.bind fun _ =>
        (Forward.whenAt _ _ advances_ownSelections.forward).bind fun _ => Forward.pure _

theorem advances_failDefinition : failDefinition.Advances := by
  intro r d r' h
  unfold failDefinition at h
  split at h <;> cases h

theorem advances_definition : definition.Advances := fun r => by
  refine AdvancesFrom.keyword_bind ?_
  have hne {k : Lexeme} (h : r.scanner.keyword .execution = k) (hk : k ≠ .eof) :
      r.scanner.lexeme ≠ .eof := Scanner.lexeme_ne_eof_of_keyword (h ▸ hk)
  split
  · exact (advances_shorthand r).bind fun _ => Forward.pure _
  · rename_i h
    exact (AdvancesFrom.operation (hne h (by decide)) _ _).bind fun _ => Forward.pure _
  · rename_i h
    exact (AdvancesFrom.operation (hne h (by decide)) _ _).bind fun _ => Forward.pure _
  · rename_i h
    exact (AdvancesFrom.operation (hne h (by decide)) _ _).bind fun _ => Forward.pure _
  · rename_i h
    exact (AdvancesFrom.fragment (hne h (by decide))).bind fun _ => Forward.pure _
  · exact advances_failDefinition r
  · exact Advances.failUnexpected _ r

/-- Reads a text as a whole. -/
def whole {α : Type} (part : Reader α) : Reader α := do
  advance
  let a ← part
  endOfInput
  return a

end Reader

/-! ## Whole texts -/

/-- The definitions that can be read from the front of a text, and the document, or the error that
ended the reading. -/
def Document.attempt (text : String) : List Definition × Except SyntaxError Document :=
  match Reader.advance (.ofText text) with
  | .error e => ([], .error e)
  | .ok (_, r) =>
    let item : Production Definition := ⟨Reader.definition, Reader.advances_definition⟩
    let (definitions, ending) := item.collect (fun s => .ok (s.lexeme ≠ .eof)) r
    (definitions, ending.map fun r' => ⟨definitions, ⟨.start, r'.scanner.cursor.position⟩⟩)

/-- The document that a text is. -/
def Document.parse (text : String) : Except SyntaxError Document := (Document.attempt text).2

/-- The type reference that a text is. -/
def TypeRef.parse (text : String) : Except SyntaxError TypeRef :=
  (Reader.whole Reader.typeRef (.ofText text)).map (·.1)

/-- The value that a text is. It may not refer to variables. -/
def Value.parse (text : String) : Except SyntaxError Value :=
  (Reader.whole Reader.value (.ofText text)).map (·.1)

end GraphQLSyntax
