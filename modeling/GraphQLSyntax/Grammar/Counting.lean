import GraphQLSyntax.Grammar.Document

/-!
# Counting what is open

The limits on nesting are kept by counters. A reader that comes to a selection set or to a list
tests how many are open, counts one more, and takes it off the count where the set or the list is
over. One such counter goes through a whole document for its selection sets, and every value has
its own for its lists.

* `Counting`: readers that thread a counter.
* `Counting.enter`, `Counting.leave`: what they do to it.
* `Counting.value`, `Counting.selectionSet`: the parts of the grammar that nest. Their last argument
  bounds the recursion.
* `Counting.parse`: a text as a whole.
-/

namespace GraphQLSyntax

/-- Reads a part of the grammar and keeps count of what is open in it. -/
abbrev Counting : Type → Type := StateT Nat Reader

namespace Counting

variable {α : Type}

/-! ## What counting readers are made of -/

/-- Counts one more, where fewer than `limit` are open. -/
def enter (limit : Nat) (tooDeep : Scanner → SyntaxError) : Counting Unit := do
  if limit ≤ (← get) then (Reader.fail tooDeep : Reader Unit) else modify (· + 1)

/-- Takes off the count what is over. -/
def leave : Counting Unit := modify (· - 1)

/-- Reads a part that starts with a lexeme of the given kind, where there is one. -/
def whenAt (kind : Lexeme) (otherwise : α) (part : Counting α) : Counting α := do
  if (← Reader.lexeme) = kind then part else return otherwise

/-- Reads a part that keeps the span it covers. -/
def spanned (part : Counting (Span → α)) : Counting α := fun opened r => do
  let ((build, opened'), r') ← part opened r
  return ((build ⟨r.scanner.start, r'.consumedTo⟩, opened'), r')

/-- Reads one item after the other while `more` asks for it. An item that takes nothing would be
read again for ever. There is none, but here it would be the last. -/
def repeatWhile (item : Counting α) (more : Scanner → Except SyntaxError Bool) :
    Counting (List α) := fun opened r =>
  match more r.scanner with
  | .error e => .error e
  | .ok false => .ok (([], opened), r)
  | .ok true =>
    match item opened r with
    | .error e => .error e
    | .ok ((a, opened'), r') =>
      if r'.remaining < r.remaining then
        (repeatWhile item more opened' r').map fun ((as, opened''), r'') =>
          ((a :: as, opened''), r'')
      else .ok (([a], opened'), r')
termination_by _ r => r.remaining

/-- Reads items up to the lexeme that closes them, which stays current. -/
def untilClosing (item : Counting α) (close : Lexeme) (unclosed : Scanner → SyntaxError) :
    Counting (List α) :=
  item.repeatWhile fun s =>
    if s.lexeme = close then .ok false
    else if s.lexeme = .eof then .error (unclosed s)
    else .ok true

/-! ## Values -/

/-- Reads a list, which counts. -/
def list (item : Counting Value) : Counting Value :=
  spanned do
    enter Reader.maxListDepth fun s => Scanner.tooDeep "[" s.span
    let opener ← Reader.expect .squareOpen ["["]
    let items ← item.untilClosing .squareClose fun s =>
      s.unclosed "[" "list opened here" opener.span
    leave
    Reader.advance
    return fun span => .list items span

/-- Reads a value, with `list` for the lists in it. -/
def valueWith (list : Counting Value) : Counting Value := do
  match ← Reader.lexeme with
  | .name => Reader.namedValue
  | .squareOpen => list
  | .curlyOpen => Reader.object
  | .int => Reader.literal .int
  | .float => Reader.literal .float
  | .string => Reader.literal .string
  | .blockString => Reader.literal .blockString
  | .eof => Reader.fail fun s => s.error (.unexpectedEnd ["a value"])
  | _ => Reader.fail fun s => s.error (.unexpectedToken ["a value"] s.failureText)

/-- Reads a value. With as many `levels` as the limit allows, it is the counter that refuses. -/
def value : (levels : Nat) → Counting Value
  | 0 => valueWith (Reader.fail fun s => Scanner.tooDeep "[" s.span)
  | levels + 1 => valueWith (list (value levels))

/-! ## Selections

Each of these reads with `nested` for the selection sets in it. -/

/-- Reads a field. -/
def field (nested : Counting (List Selection)) : Counting Selection :=
  spanned do
    let first ← Reader.name "a field name"
    let second ← Reader.aliased
    let arguments ← Reader.arguments
    let directives ← Reader.directives
    let selections ← whenAt .curlyOpen [] nested
    return fun span =>
      match second with
      | some fieldName => .field (some first) fieldName arguments directives selections span
      | none => .field none first arguments directives selections span

/-- Reads what follows the type condition that an inline fragment may have. -/
def inlineFragment (typeCondition : Option Token) (nested : Counting (List Selection)) :
    Counting (Span → Selection) := do
  let directives ← Reader.directives
  let selections ← nested
  return fun span => .inlineFragment typeCondition directives selections span

/-- Reads what follows the dots of a spread. -/
def spreadBody (nested : Counting (List Selection)) : Counting (Span → Selection) := do
  if (← Reader.keyword) = .onKeyword then
    let _ ← Reader.onKeyword
    let typeCondition ← Reader.name "a type name"
    inlineFragment (some typeCondition) nested
  else if (← Reader.lexeme) = .name then
    let fragmentName ← Reader.name "a fragment name"
    let directives ← Reader.directives
    return fun span => .fragmentSpread fragmentName directives span
  else inlineFragment none nested

/-- Reads a spread. -/
def spread (nested : Counting (List Selection)) : Counting Selection :=
  spanned do
    Reader.spreadDots
    spreadBody nested

/-- Reads a selection. -/
def selection (nested : Counting (List Selection)) : Counting Selection := do
  if (← Reader.lexeme) = .period then spread nested else field nested

/-- Reads the selections between braces, which count. -/
def braced (allowEmpty : Bool) (item : Counting Selection) : Counting (List Selection) := do
  if (← Reader.lexeme) = .curlyOpen then
    enter Reader.maxSelectionDepth fun s => Scanner.tooDeep (String.ofList s.text) s.span
    let opener ← Reader.take
    let selections ← item.untilClosing .curlyClose fun s =>
      s.unclosed "\x7b" "`\x7b` opened here" opener.span
    if selections.isEmpty && !allowEmpty then Reader.failEmptySet opener.span
    else
      Reader.advance
      leave
      return selections
  else Reader.failUnexpected ["\x7b"]

/-- Reads a selection set. With as many `levels` as the limit allows, it is the counter that
refuses. -/
def selectionSet (allowEmpty : Bool) : (levels : Nat) → Counting (List Selection)
  | 0 => Reader.failTooDeep
  | levels + 1 => braced allowEmpty (selection (selectionSet false levels))

/-! ## Documents -/

/-- Reads the selections of a definition. -/
def ownSelections : Counting (List Selection) := selectionSet true Reader.maxSelectionDepth

/-- Reads an operation that is written as its selections alone. -/
def shorthand : Counting Operation :=
  spanned do
    let selections ← ownSelections
    return fun span => ⟨none, selections, span⟩

/-- Reads an operation of the given kind from its keyword on. -/
def operation (kind : OperationKind) (keyword : Lexeme) : Counting Operation :=
  spanned do
    let token ← Reader.take
    let operationName ← Reader.whenAt .name none do return some (← Reader.take)
    let definitions ← Reader.variableDefinitions
    let directives ← Reader.directives
    let selections ← whenAt .curlyOpen [] ownSelections
    return fun span =>
      ⟨some ⟨kind, { token with lexeme := keyword }, operationName, definitions, directives⟩,
        selections, span⟩

/-- Reads a fragment from its keyword on. -/
def fragment : Counting Fragment :=
  spanned do
    let _ ← Reader.take
    let fragmentName ← Reader.fragmentName
    let _ ← Reader.onKeyword
    let typeCondition ← Reader.name "a type name"
    let directives ← Reader.directives
    let selections ← whenAt .curlyOpen [] ownSelections
    return fun span => ⟨fragmentName, typeCondition, directives, selections, span⟩

/-- Reads a definition. -/
def definition : Counting Definition := do
  match ← Reader.keyword with
  | .curlyOpen => return .operation (← shorthand)
  | .query => return .operation (← operation .query .query)
  | .mutation => return .operation (← operation .mutation .mutation)
  | .subscription => return .operation (← operation .subscription .subscription)
  | .fragment => return .fragment (← fragment)
  | .name => Reader.failDefinition
  | _ => Reader.failUnexpected ["an operation", "a fragment"]

/-- Reads the definitions up to the end of the text. -/
def definitions : Counting (List Definition) :=
  definition.repeatWhile fun s => .ok (s.lexeme ≠ .eof)

/-- Reads a document. -/
def document : Counting Document := do
  Reader.advance
  let definitions ← definitions
  let cursor ← Reader.cursor
  return ⟨definitions, ⟨.start, cursor.position⟩⟩

/-- The document that a text is, and how many selection sets are still open at its end. -/
def parse (text : String) : Except SyntaxError (Document × Nat) :=
  (document 0 (.ofText text)).map (·.1)

end Counting

end GraphQLSyntax
