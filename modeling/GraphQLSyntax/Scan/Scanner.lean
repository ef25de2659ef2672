import GraphQLSyntax.Lexical.Classify
import GraphQLSyntax.Lexeme.Keyword
import GraphQLSyntax.Scan.Cursor
import GraphQLSyntax.SyntaxError.Basic
import GraphQLSyntax.Token

/-!
# Scanners

A `Scanner` holds the lexeme that was scanned last and the cursor behind it. Most lexemes are found
by `advance`, wherever they stand. A few are only looked for where the grammar asks for them: the
name behind a sigil, the two further dots of a spread, and the rest of an object literal.

* `Scanner.advance`, `Scanner.advancePastComments`: the next lexeme.
* `Scanner.failureText`, `Scanner.failureSpan`: what an error at the current lexeme shows.
* `Scanner.length_advance_lt`: every lexeme that fits a kind shortens the text that is left.
-/

namespace GraphQLSyntax

/-- The lexeme scanned last, where it starts and its text, and the cursor behind it. The text of a
name behind a sigil leaves out the sigil that it starts at. -/
structure Scanner where
  cursor : Cursor
  lexeme : Lexeme
  start : Position
  text : List Char
deriving DecidableEq, Repr, Inhabited

namespace Scanner

/-- The scanner before the first lexeme. -/
def ofText (text : String) : Scanner := ⟨.ofText text, .unknown, .start, []⟩

/-! ## The current lexeme -/

/-- The stretch of text that the current lexeme covers. -/
def span (s : Scanner) : Span := ⟨s.start, s.cursor.position⟩

/-- The current lexeme as a token. -/
def token (s : Scanner) : Token := .plain s.lexeme (String.ofList s.text) s.span

/-- The current lexeme, where it is a name that `table` has as a keyword, as that keyword. -/
def keyword (s : Scanner) (table : KeywordTable) : Lexeme :=
  if s.lexeme = .name then table.classify (String.ofList s.text) else s.lexeme

/-- No name is read as the end of input. -/
theorem lexeme_ne_eof_of_keyword {s : Scanner} {table : KeywordTable}
    (h : s.keyword table ≠ .eof) : s.lexeme ≠ .eof := by
  intro heof
  simp [keyword, heof] at h

/-- What a failure at the current lexeme shows: its text, or the one character that starts no
lexeme, or `EOF` where nothing is left. -/
def failureText (s : Scanner) : String :=
  match s.text, s.cursor.rest with
  | [], [] => "EOF"
  | [], c :: _ => String.singleton c
  | text, _ => String.ofList text

/-- The stretch of text that `failureText` covers. -/
def failureSpan (s : Scanner) : Span :=
  match s.text, s.cursor.rest with
  | [], [] => .emptyAt s.start
  | [], c :: _ => ⟨s.start, s.start.shiftRight c.utf8Size⟩
  | _, _ => s.span

theorem failure_of_text {s : Scanner} (h : s.text ≠ []) :
    s.failureText = String.ofList s.text ∧ s.failureSpan = s.span := by
  obtain ⟨c, cs, htext⟩ := List.exists_cons_of_ne_nil h
  rw [failureText, failureSpan, htext]
  exact ⟨rfl, rfl⟩

/-- Where the lexeme has no text, a failure shows the character that follows. -/
theorem failure_of_char {s : Scanner} {c : Char} {rest : List Char} (h : s.text = [])
    (hrest : s.cursor.rest = c :: rest) : s.failureText = String.singleton c ∧
      s.failureSpan = ⟨s.start, s.start.shiftRight c.utf8Size⟩ := by
  rw [failureText, failureSpan, h, hrest]
  exact ⟨rfl, rfl⟩

theorem failure_of_end {s : Scanner} (h : s.text = []) (hrest : s.cursor.rest = []) :
    s.failureText = "EOF" ∧ s.failureSpan = .emptyAt s.start := by
  rw [failureText, failureSpan, h, hrest]
  exact ⟨rfl, rfl⟩

/-- The error that calls the current lexeme unexpected. -/
def error (s : Scanner) (cause : Cause) : SyntaxError :=
  .unexpected s.failureText s.failureSpan cause

/-- The error where the current lexeme is none of `expected`. -/
def unexpected (s : Scanner) (expected : List String) : SyntaxError :=
  let cause := match s.lexeme with
    | .eof => .unexpectedEnd expected
    | .unknown => .unreadable
    | _ => .unexpectedToken expected s.failureText
  (s.error cause).withNote (.general ("expected " ++ " or ".intercalate expected))

/-- The error where the text ends before what was opened at `opener` is closed. -/
def unclosed (s : Scanner) (delimiter note : String) (opener : Span) : SyntaxError :=
  (s.error (.unclosedDelimiter delimiter)).withNote (.pointing note opener)

/-- The error where `found` opens more levels than may nest. -/
def tooDeep (found : String) (span : Span) : SyntaxError :=
  .ofMessage "maximum nesting depth exceeded" found span .invalidSyntax

/-! ## The next lexeme -/

/-- The scanner at the next lexeme, comments included. -/
def advance (s : Scanner) : Scanner :=
  let k := s.cursor.skipGap
  let (lexeme, taken) := Lexical.classify k.rest
  ⟨k.consume taken, lexeme, k.position, taken⟩

/-- The scanner with a failure marked at the cursor. -/
def failHere (s : Scanner) : Scanner := ⟨s.cursor, .unknown, s.cursor.position, []⟩

/-- What is left after the next lexeme is what it does not take. -/
theorem rest_advance (s : Scanner) :
    s.advance.cursor.rest = (s.cursor.rest.dropWhile Lexical.isGap).drop
      (Lexical.classify (s.cursor.rest.dropWhile Lexical.isGap)).2.length := by
  simp [advance]

theorem lexeme_advance (s : Scanner) :
    s.advance.lexeme = (Lexical.classify (s.cursor.rest.dropWhile Lexical.isGap)).1 := by
  simp [advance]

/-- Advancing to a lexeme that fits a kind shortens what is left. -/
theorem length_advance_lt {s : Scanner} (heof : s.advance.lexeme ≠ .eof)
    (hunknown : s.advance.lexeme ≠ .unknown) :
    s.advance.cursor.rest.length < s.cursor.rest.length := by
  rw [lexeme_advance] at heof hunknown
  have htaken := List.length_pos_iff.mpr (Lexical.classify_ne_nil heof hunknown)
  have hprefix :=
    (Lexical.classify_isPrefix (s.cursor.rest.dropWhile Lexical.isGap)).length_le
  have hgap : (s.cursor.rest.dropWhile Lexical.isGap).length ≤ s.cursor.rest.length :=
    (List.dropWhile_suffix _).length_le
  rw [rest_advance, List.length_drop]
  omega

/-- The scanner at the next lexeme that is no comment. -/
def advancePastComments (s : Scanner) : Scanner :=
  if s.advance.lexeme = .comment then s.advance.advancePastComments else s.advance
termination_by s.cursor.rest.length
decreasing_by
  rename_i h
  exact length_advance_lt (by simp [h]) (by simp [h])

/-- Where the next lexeme that is no comment fits a kind, what is left is shorter. -/
theorem length_advancePastComments_lt {s : Scanner} (heof : s.advancePastComments.lexeme ≠ .eof)
    (hunknown : s.advancePastComments.lexeme ≠ .unknown) :
    s.advancePastComments.cursor.rest.length < s.cursor.rest.length := by
  fun_induction advancePastComments s with
  | case1 s h ih =>
    exact Nat.lt_trans (ih heof hunknown) (length_advance_lt (by simp [h]) (by simp [h]))
  | case2 s h => exact length_advance_lt heof hunknown

/-- Nothing is left at the end of input. -/
theorem rest_advancePastComments_of_eof {s : Scanner}
    (heof : s.advancePastComments.lexeme = .eof) : s.advancePastComments.cursor.rest = [] := by
  fun_induction advancePastComments s with
  | case1 s h ih => exact ih heof
  | case2 s h =>
    rw [lexeme_advance, Lexical.classify_eof_iff] at heof
    simp [rest_advance, heof]

/-! ## Lexemes that the grammar asks for -/

/-- The scanner at the name that touches the current sigil, or failing behind the sigil. The name
starts at its sigil and leaves it out of its text. -/
def sigilName (s : Scanner) : Scanner :=
  match s.cursor.rest with
  | [] => s.failHere
  | c :: _ =>
    if Lexical.isNameStart c then
      let name := s.cursor.rest.takeWhile Lexical.isNamePart
      ⟨s.cursor.consume name, .name, s.start, name⟩
    else s.failHere

/-- The scanner behind the two dots that turn the current dot into a spread, where there are exactly
two. -/
def spreadTail? (s : Scanner) : Option Scanner :=
  match s.cursor.rest with
  | '.' :: '.' :: '.' :: _ => none
  | '.' :: '.' :: _ =>
    some { s with cursor := s.cursor.consume ['.', '.'], text := s.text ++ ['.', '.'] }
  | _ => none

/-- The scanner at the object literal that the current brace opens. -/
def objectLiteral (s : Scanner) : Scanner :=
  let (lexeme, taken) := Lexical.braced 0 s.cursor.rest
  { s with cursor := s.cursor.consume taken, lexeme, text := s.text ++ taken }

/-- Where there are exactly two dots, the scanner goes past them. -/
theorem spreadTail?_eq_some {s s' : Scanner} : s.spreadTail? = some s' ↔
    ∃ rest, s.cursor.rest = '.' :: '.' :: rest ∧ rest.head? ≠ some '.' ∧
      s' = { s with cursor := s.cursor.consume ['.', '.'], text := s.text ++ ['.', '.'] } := by
  unfold spreadTail?
  split
  · rename_i h
    rw [h]
    simp
  · rename_i rest hthree h
    rw [h, Option.some.injEq]
    constructor
    · rintro rfl
      refine ⟨rest, rfl, ?_, rfl⟩
      intro hhead
      obtain ⟨rest', rfl⟩ := List.head?_eq_some_iff.mp hhead
      exact hthree rest' rfl
    · rintro ⟨rest', -, -, rfl⟩
      rfl
  · rename_i hthree htwo
    refine iff_of_false (by rintro ⟨⟩) ?_
    rintro ⟨rest, hrest, -, -⟩
    exact htwo rest hrest

theorem length_sigilName_le (s : Scanner) :
    s.sigilName.cursor.rest.length ≤ s.cursor.rest.length := by
  unfold sigilName
  split
  · exact Nat.le_refl _
  · split
    · simp only [Cursor.rest_consume, List.length_drop]
      omega
    · exact Nat.le_refl _

theorem length_spreadTail?_le {s t : Scanner} (h : s.spreadTail? = some t) :
    t.cursor.rest.length ≤ s.cursor.rest.length := by
  obtain ⟨rest, -, -, rfl⟩ := spreadTail?_eq_some.mp h
  simp only [Cursor.rest_consume, List.length_drop]
  omega

theorem length_objectLiteral_le (s : Scanner) :
    s.objectLiteral.cursor.rest.length ≤ s.cursor.rest.length := by
  simp only [objectLiteral, Cursor.rest_consume, List.length_drop]
  omega

end Scanner

end GraphQLSyntax
