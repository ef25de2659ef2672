import GraphQLSyntax.Grammar.Value
import GraphQLSyntax.Tree.Selection

/-!
# Reading selections

* `Reader.arguments`, `Reader.directives`: what fields and fragments are given.
* `Reader.selection`: a field or a spread.
* `Production.selectionSet`: a selection set. Those of one definition nest at most
  `Reader.maxSelectionDepth` deep.
-/

namespace GraphQLSyntax

namespace Reader

/-- How deep selection sets may nest in a definition, whose own set counts as one. -/
def maxSelectionDepth : Nat := 64

/-! ## Arguments and directives -/

/-- Reads what an argument is given. -/
def argumentValue : Reader ArgumentValue := do
  if (← lexeme) = .dollar then
    let variableName ← sigilName .dollar ["$"] "a variable name"
    return .reference { variableName with type := some .variableName }
  else
    let value ← value
    return .literal value

/-- Reads a named argument. -/
def argument : Reader Argument :=
  spanned do
    let argumentName ← name "an argument name"
    let _ ← expect .colon [":"]
    let value ← argumentValue
    return fun span => ⟨argumentName, value, span⟩

theorem forward_argumentValue : argumentValue.Forward :=
  Forward.lexeme.bind fun l => by
    split
    · exact ((Advances.sigilName (by decide) _ _).bind fun _ => Forward.pure _).forward
    · exact (advances_value.bind fun _ => Forward.pure _).forward

theorem advances_argument : argument.Advances :=
  Advances.spanned <| (Advances.name _).bind fun _ =>
    (Advances.expect (by decide) _).forward.bind fun _ =>
      forward_argumentValue.bind fun _ => Forward.pure _

/-- Reads the arguments that may stand in parentheses. -/
def arguments : Reader (List Argument) :=
  whenAt .parenOpen [] (Production.parenthesised ⟨argument, advances_argument⟩)

theorem forward_arguments : arguments.Forward :=
  Forward.whenAt _ _ (Production.advances_parenthesised _).forward

/-- Reads a directive. -/
def directive : Reader Directive :=
  spanned do
    let directiveName ← sigilName .atSign ["@"] "a directive name"
    let arguments ← arguments
    return fun span => ⟨directiveName, arguments, span⟩

theorem advances_directive : directive.Advances :=
  Advances.spanned <| (Advances.sigilName (by decide) _ _).bind fun _ =>
    forward_arguments.bind fun _ => Forward.pure _

/-- Reads the directives that may follow. -/
def directives : Reader (List Directive) :=
  Production.whileAt ⟨directive, advances_directive⟩ .atSign

theorem forward_directives : directives.Forward := Production.forward_whileAt _ _

/-! ## Fields and spreads

Each of these reads with `nested` for the selection sets in it. -/

/-- Reads the name that a field asks for, where an alias stood before it. -/
def aliased : Reader (Option Token) :=
  whenAt .colon none do
    let _ ← expect .colon [":"]
    let fieldName ← name "a field name"
    return some fieldName

theorem forward_aliased : aliased.Forward :=
  Forward.whenAt _ _ <| (Advances.expect (by decide) _).forward.bind fun _ =>
    (Advances.name _).forward.bind fun _ => Forward.pure _

/-- Reads a field. -/
def field (nested : Reader (List Selection)) : Reader Selection :=
  spanned do
    let first ← name "a field name"
    let second ← aliased
    let arguments ← arguments
    let directives ← directives
    let selections ← whenAt .curlyOpen [] nested
    return fun span =>
      match second with
      | some fieldName => .field (some first) fieldName arguments directives selections span
      | none => .field none first arguments directives selections span

theorem advances_field {nested : Reader (List Selection)} (hnested : nested.Forward) :
    (field nested).Advances :=
  Advances.spanned <| (Advances.name _).bind fun _ => forward_aliased.bind fun _ =>
    forward_arguments.bind fun _ => forward_directives.bind fun _ =>
      (Forward.whenAt _ _ hnested).bind fun _ => Forward.pure _

/-- Reads the three dots of a spread. -/
def spreadDots : Reader Unit := fun r =>
  if r.scanner.lexeme = .period then
    match r.scanner.spreadTail? with
    | some scanner => advance { r with scanner }
    | none => failUnexpected ["..."] r
  else failUnexpected ["..."] r

theorem advances_spreadDots : spreadDots.Advances := by
  intro r u r' h
  unfold spreadDots at h
  split at h
  · rename_i hperiod
    split at h
    · rename_i s hs
      have hle := Scanner.length_spreadTail?_le hs
      have := Forward.advance _ _ _ h
      by_cases heof : s.lexeme = .eof
      · unfold Reading.remaining at this ⊢
        simp only [hperiod, heof, reduceCtorEq, ↓reduceIte] at this ⊢
        omega
      · have := AdvancesFrom.advance (r := { r with scanner := s }) heof _ _ h
        unfold Reading.remaining at this ⊢
        simp only [hperiod, heof, reduceCtorEq, ↓reduceIte] at this ⊢
        omega
    · cases h
  · cases h

/-- Reads the keyword `on`. -/
def onKeyword : Reader Token := do
  if (← keyword) = .onKeyword then take else failUnexpected ["on"]

theorem forward_onKeyword : onKeyword.Forward :=
  Forward.keyword.bind fun k => by
    split
    · exact Forward.take
    · exact (Advances.failUnexpected _).forward

/-- Reads what follows the type condition that an inline fragment may have. -/
def inlineFragment (typeCondition : Option Token) (nested : Reader (List Selection)) :
    Reader (Span → Selection) := do
  let directives ← directives
  let selections ← nested
  return fun span => .inlineFragment typeCondition directives selections span

theorem forward_inlineFragment (typeCondition : Option Token)
    {nested : Reader (List Selection)} (hnested : nested.Forward) :
    (inlineFragment typeCondition nested).Forward :=
  forward_directives.bind fun _ => hnested.bind fun _ => Forward.pure _

/-- Reads what follows the dots of a spread. -/
def spreadBody (nested : Reader (List Selection)) : Reader (Span → Selection) := do
  if (← keyword) = .onKeyword then
    let _ ← onKeyword
    let typeCondition ← name "a type name"
    inlineFragment (some typeCondition) nested
  else if (← lexeme) = .name then
    let fragmentName ← name "a fragment name"
    let directives ← directives
    return fun span => .fragmentSpread fragmentName directives span
  else inlineFragment none nested

/-- Reads a spread. -/
def spread (nested : Reader (List Selection)) : Reader Selection :=
  spanned do
    spreadDots
    spreadBody nested

theorem forward_spreadBody {nested : Reader (List Selection)} (hnested : nested.Forward) :
    (spreadBody nested).Forward :=
  Forward.keyword.bind fun k => by
    split
    · exact forward_onKeyword.bind fun _ => (Advances.name _).forward.bind fun _ =>
        forward_inlineFragment _ hnested
    · refine Forward.lexeme.bind fun l => ?_
      split
      · exact (Advances.name _).forward.bind fun _ => forward_directives.bind fun _ =>
          Forward.pure _
      · exact forward_inlineFragment _ hnested

theorem advances_spread {nested : Reader (List Selection)} (hnested : nested.Forward) :
    (spread nested).Advances :=
  Advances.spanned <| advances_spreadDots.bind fun _ => forward_spreadBody hnested

/-- Reads a selection. -/
def selection (nested : Reader (List Selection)) : Reader Selection := do
  if (← lexeme) = .period then spread nested else field nested

theorem advances_selection {nested : Reader (List Selection)} (hnested : nested.Forward) :
    (selection nested).Advances :=
  Forward.lexeme.bind_advances fun l => by
    split
    · exact advances_spread hnested
    · exact advances_field hnested

/-! ## Selection sets -/

/-- Ends with the error that the set opened at `opener` selects nothing. -/
def failEmptySet (opener : Span) : Reader (List Selection) :=
  fail fun s => ((s.error (.emptyConstruct "selection set")).withNote
    (.pointing "selection set opened here" opener)).withNote
    (.help "remove the braces or select at least one field")

/-- Reads the selections between braces. Only where `allowEmpty` says so may there be none. -/
def braced (allowEmpty : Bool) (item : Production Selection) : Reader (List Selection) := do
  let opener ← expect .curlyOpen ["\x7b"]
  let selections ← item.untilClosing .curlyClose fun s =>
    s.unclosed "\x7b" "`\x7b` opened here" opener.span
  if selections.isEmpty && !allowEmpty then failEmptySet opener.span
  else
    advance
    return selections

/-- Refuses a selection set that nests too deep. -/
def failTooDeep : Reader (List Selection) := do
  if (← lexeme) = .curlyOpen then fail fun s => Scanner.tooDeep (String.ofList s.text) s.span
  else failUnexpected ["\x7b"]

theorem advances_braced (allowEmpty : Bool) (item : Production Selection) :
    (braced allowEmpty item).Advances :=
  (Advances.expect (by decide) _).bind fun _ =>
    (item.forward_untilClosing _ _).bind fun selections => by
      split
      · exact (Advances.fail _).forward
      · exact Forward.advance.bind fun _ => Forward.pure _

theorem advances_failTooDeep : failTooDeep.Advances :=
  Forward.lexeme.bind_advances fun l => by
    split
    · exact Advances.fail _
    · exact Advances.failUnexpected _

end Reader

namespace Production

/-- Reads a selection set in which sets nest at most `depth` deep, itself included. Only where
`allowEmpty` says so may it select nothing, and the sets inside it never may. -/
def selectionSet (allowEmpty : Bool) : (depth : Nat) → Production (List Selection)
  | 0 => ⟨Reader.failTooDeep, Reader.advances_failTooDeep⟩
  | depth + 1 =>
    let nested := selectionSet false depth
    let item : Production Selection :=
      ⟨.selection nested.read, Reader.advances_selection nested.advances.forward⟩
    ⟨Reader.braced allowEmpty item, Reader.advances_braced allowEmpty item⟩

end Production

end GraphQLSyntax
