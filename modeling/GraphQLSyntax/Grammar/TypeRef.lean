import GraphQLSyntax.Grammar.Reader
import GraphQLSyntax.Lexical.Bracketed

/-!
# Reading types

* `Reader.typeRef`: a type reference. Fewer than `Reader.maxLists` lists may nest in it.
* `Reader.advances_typeRef`: reading a type advances.
-/

namespace GraphQLSyntax

namespace Reader

/-- The number of lists that a type must stay below. -/
def maxLists : Nat := 64

/-- The number that `brackets` opening brackets are counted as. The count is kept in 32 bits. -/
def countedLists (brackets : Nat) : Nat := brackets % UInt32.size

/-- Reads the opening brackets of a type: how many lists they open. -/
def openings : Reader Nat := do
  if (← lexeme) = .squareOpen then
    let taken := Lexical.openings (← cursor).rest
    let lists := countedLists (taken.count '[' + 1)
    if maxLists ≤ lists then fail fun s => Scanner.tooDeep "[" s.span
    else
      skipText taken
      advance
      return lists
  else return 0

/-- Reads what follows the name of a type in `lists` lists, the first of which was opened at
`opener`. What is read ends at the last bracket or mark. -/
def closings (lists : Nat) (opener : Span) : Reader Wrapping := do
  let name ← cursor
  let taken := Lexical.closings lists name.rest
  skipText taken
  if (← cursor).rest.head? = some ']' then
    fail fun s => s.failHere.error (.unexpectedToken ["!"] "]")
  else if taken.count ']' < lists then
    fail fun s => s.failHere.unclosed "[" "list type opened here" opener
  else
    advanceAfter (name.consume (Lexical.trimmed taken)).position
    return .ofClosings taken

/-- Reads the name of a type with the brackets and marks around it. -/
def wrappedName : Reader (Span → TypeRef) := do
  let opener ← token
  let lists ← openings
  if (← lexeme) = .name then
    let name ← token
    let wrapping ← closings lists opener.span
    return fun span => ⟨name, wrapping, span⟩
  else failUnexpected ["a type name"]

/-- Reads a type reference. -/
def typeRef : Reader TypeRef := do
  match ← lexeme with
  | .squareOpen | .name => spanned wrappedName
  | _ => failUnexpected ["a type"]

/-! ## Going forward -/

theorem forward_openings : openings.Forward :=
  Forward.lexeme.bind fun l => by
    split
    · refine Forward.cursor.bind fun k => ?_
      dsimp only
      split
      · exact (Advances.fail _).forward
      · exact (Forward.skipText _).bind fun _ => Forward.advance.bind fun _ => Forward.pure _
    · exact Forward.pure _

theorem AdvancesFrom.closings {r : Reading} (h : r.scanner.lexeme ≠ .eof) (lists : Nat)
    (opener : Span) : (Reader.closings lists opener).AdvancesFrom r := by
  refine AdvancesFrom.cursor_bind (AdvancesFrom.skipText_bind fun r' hr' => ?_)
  refine AdvancesFrom.cursor_bind ?_
  split
  · exact Advances.fail _ r'
  · split
    · exact Advances.fail _ r'
    · exact AdvancesFrom.bind (fun _ _ hr => remaining_advanceAfter_lt hr (hr' ▸ h)) fun _ =>
        Forward.pure _

theorem advances_wrappedName : wrappedName.Advances :=
  Forward.token.bind_advances fun opener => forward_openings.bind_advances fun lists r => by
    refine AdvancesFrom.lexeme_bind ?_
    split
    · rename_i h
      exact AdvancesFrom.token_bind
        ((AdvancesFrom.closings (by simp [h]) _ _).bind fun _ => Forward.pure _)
    · exact Advances.failUnexpected _ r

theorem advances_typeRef : typeRef.Advances :=
  Forward.lexeme.bind_advances fun l => by
    split
    · exact Advances.spanned advances_wrappedName
    · exact Advances.spanned advances_wrappedName
    · exact Advances.failUnexpected _

end Reader

end GraphQLSyntax
