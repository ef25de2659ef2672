import GraphQLSyntax.Grammar.Repeated
import GraphQLSyntax.Tree.Value

/-!
# Reading values

* `Reader.value`: a literal value. Lists nest at most `Reader.maxListDepth` deep in it.
* `Reader.advances_value`: reading a value advances.
-/

namespace GraphQLSyntax

/-- The value that a name stands for: `true`, `false`, `null`, or a member of an enum. -/
def Value.ofName (token : Token) : Value :=
  match KeywordTable.value.classify token.text with
  | .trueValue => .boolean true
  | .falseValue => .boolean false
  | .nullValue => .null
  | _ => .scalar (.literal .enum token.text token.span)

namespace Reader

/-- How deep lists may nest in a value. -/
def maxListDepth : Nat := 64

/-- Reads the current lexeme as a literal of the given kind. -/
def literal (kind : Lexeme) : Reader Value := do
  let token ← take
  return .scalar (.literal kind token.text token.span)

/-- Reads a name as the value it stands for. -/
def namedValue : Reader Value := do
  let token ← take
  return .ofName token

/-- Reads an object literal, which is kept as its text. -/
def object : Reader Value := fun r =>
  let scanner := r.scanner.objectLiteral
  if scanner.lexeme = .unknown then
    let cause := if scanner.cursor.rest = [] then .unclosedDelimiter "\x7b" else .unreadable
    .error ((scanner.error cause).withNote
      (.pointing "object literal opened here" r.scanner.span))
  else literal .object { r with scanner }

/-- Reads a list of items. -/
def list (item : Production Value) : Reader Value :=
  spanned do
    let opener ← expect .squareOpen ["["]
    let items ← item.untilClosing .squareClose fun s =>
      s.unclosed "[" "list opened here" opener.span
    advance
    return fun span => .list items span

/-- Reads a value, with `list` for the lists in it. -/
def valueWith (list : Reader Value) : Reader Value := do
  match ← lexeme with
  | .name => namedValue
  | .squareOpen => list
  | .curlyOpen => object
  | .int => literal .int
  | .float => literal .float
  | .string => literal .string
  | .blockString => literal .blockString
  | .eof => fail fun s => s.error (.unexpectedEnd ["a value"])
  | _ => fail fun s => s.error (.unexpectedToken ["a value"] s.failureText)

/-! ## Going forward -/

theorem AdvancesFrom.literal {r : Reading} (h : r.scanner.lexeme ≠ .eof) (kind : Lexeme) :
    (Reader.literal kind).AdvancesFrom r :=
  (AdvancesFrom.take h).bind fun _ => Forward.pure _

theorem AdvancesFrom.namedValue {r : Reading} (h : r.scanner.lexeme ≠ .eof) :
    Reader.namedValue.AdvancesFrom r :=
  (AdvancesFrom.take h).bind fun _ => Forward.pure _

theorem AdvancesFrom.object {r : Reading} (h : r.scanner.lexeme ≠ .eof) :
    Reader.object.AdvancesFrom r := by
  intro v r' hr
  unfold Reader.object at hr
  dsimp only at hr
  split at hr
  · cases hr
  · by_cases heof : r.scanner.objectLiteral.lexeme = .eof
    · have hforward : (Reader.literal .object).Forward :=
        Forward.take.bind fun _ => Forward.pure _
      have := hforward _ _ _ hr
      have hle := Scanner.length_objectLiteral_le r.scanner
      unfold Reading.remaining at this ⊢
      simp only [heof, h, ↓reduceIte] at this ⊢
      omega
    · have := AdvancesFrom.literal (r := { r with scanner := r.scanner.objectLiteral }) heof
        .object _ _ hr
      have hle := Scanner.length_objectLiteral_le r.scanner
      unfold Reading.remaining at this ⊢
      simp only [heof, h, ↓reduceIte] at this ⊢
      omega

theorem advances_list (item : Production Value) : (list item).Advances :=
  Advances.spanned <| (Advances.expect (by decide) _).bind fun _ =>
    (item.forward_untilClosing _ _).bind fun _ => Forward.advance.bind fun _ => Forward.pure _

theorem advances_valueWith {list : Reader Value} (hlist : list.Advances) :
    (valueWith list).Advances := fun r => by
  refine AdvancesFrom.lexeme_bind ?_
  split
  · rename_i h
    exact AdvancesFrom.namedValue (by simp [h])
  · exact hlist r
  · rename_i h
    exact AdvancesFrom.object (by simp [h])
  · rename_i h
    exact AdvancesFrom.literal (by simp [h]) _
  · rename_i h
    exact AdvancesFrom.literal (by simp [h]) _
  · rename_i h
    exact AdvancesFrom.literal (by simp [h]) _
  · rename_i h
    exact AdvancesFrom.literal (by simp [h]) _
  · exact Advances.fail _ r
  · exact Advances.fail _ r

end Reader

namespace Production

/-- Reads a value in which lists nest at most `depth` deep. -/
def value : (depth : Nat) → Production Value
  | 0 =>
    ⟨.valueWith (.fail fun s => Scanner.tooDeep "[" s.span),
      Reader.advances_valueWith (.fail _)⟩
  | depth + 1 =>
    ⟨.valueWith (.list (value depth)), Reader.advances_valueWith (Reader.advances_list _)⟩

end Production

namespace Reader

/-- Reads a literal value. -/
def value : Reader Value := (Production.value maxListDepth).read

/-- Reading a value advances. -/
theorem advances_value : value.Advances := (Production.value maxListDepth).advances

end Reader

end GraphQLSyntax
