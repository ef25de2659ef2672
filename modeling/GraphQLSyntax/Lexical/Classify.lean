import GraphQLSyntax.Lexical.Ignorable
import GraphQLSyntax.Lexical.Braced
import GraphQLSyntax.Text.Line

/-!
# The lexeme a text starts with

* `classify`: the kind of the first lexeme, and the part of the text it takes.
* `classify_isPrefix`: what is taken is how the text starts.
* `classify_eof_iff`, `classify_ne_nil`: only an empty text is the end of input, and every lexeme
  that fits a kind takes something.
-/

namespace GraphQLSyntax.Lexical

/-- The characters a name starts with. -/
def isNameStart (c : Char) : Bool := c.isAlpha || c == '_'

/-- The characters a name goes on with. -/
def isNamePart (c : Char) : Bool := c.isAlphanum || c == '_'

/-- The lexemes that are one character long. -/
def single? : Char → Option Lexeme
  | '$' => some .dollar
  | '@' => some .atSign
  | '{' => some .curlyOpen
  | '}' => some .curlyClose
  | '(' => some .parenOpen
  | ')' => some .parenClose
  | '[' => some .squareOpen
  | ']' => some .squareClose
  | ':' => some .colon
  | '=' => some .equals
  | '.' => some .period
  | _ => none

/-- The first lexeme of a text and what it takes. A comment runs to the end of its line. A
character that starts no lexeme is unknown and takes nothing. -/
def classify : List Char → Lexeme × List Char
  | [] => (.eof, [])
  | c :: cs =>
    match single? c with
    | some kind => (kind, [c])
    | none =>
      if c = '#' then (.comment, c :: cs.takeWhile fun d => !Text.isLineBreak d)
      else if c = '"' then quoted true (c :: cs)
      else if c = '-' ∨ c.isDigit then number (c :: cs)
      else if isNameStart c then (.name, c :: cs.takeWhile isNamePart)
      else (.unknown, [])

/-! ## What is taken -/

/-- What the first lexeme takes is how the text starts. -/
theorem classify_isPrefix (cs : List Char) : (classify cs).2 <+: cs := by
  unfold classify
  split
  · exact List.nil_prefix
  · split
    · exact List.cons_prefix_cons.mpr ⟨rfl, List.nil_prefix⟩
    · split
      · exact List.cons_prefix_cons.mpr ⟨rfl, List.takeWhile_prefix _⟩
      · split
        · exact quoted_isPrefix _ _
        · split
          · exact number_isPrefix _
          · split
            · exact List.cons_prefix_cons.mpr ⟨rfl, List.takeWhile_prefix _⟩
            · exact List.nil_prefix

/-- Every lexeme that fits a kind, other than the end of input, takes something. -/
theorem classify_ne_nil {cs : List Char} (heof : (classify cs).1 ≠ .eof)
    (hunknown : (classify cs).1 ≠ .unknown) : (classify cs).2 ≠ [] := by
  revert heof hunknown
  unfold classify
  split
  · simp
  · split
    · simp
    · split
      · simp
      · split
        · subst_vars
          exact fun _ _ => quoted_ne_nil true _
        · split
          · rename_i h
            exact fun _ _ => number_ne_nil h _
          · split <;> simp

private theorem single?_ne_eof {c : Char} {kind : Lexeme} (h : single? c = some kind) :
    kind ≠ .eof := by
  unfold single? at h
  split at h <;> simp_all [eq_comm]

/-- The end of input is found where nothing is left, and nowhere else. -/
theorem classify_eof_iff {cs : List Char} : (classify cs).1 = .eof ↔ cs = [] := by
  cases cs with
  | nil => simp [classify]
  | cons c cs =>
    simp only [reduceCtorEq, iff_false]
    unfold classify
    dsimp only
    split
    · rename_i h
      exact single?_ne_eof h
    · split
      · simp
      · split
        · rcases quoted_kind true (c :: cs) with h | h | h <;> simp [h]
        · split
          · rcases number_kind (c :: cs) with h | h | h <;> simp [h]
          · split <;> simp

end GraphQLSyntax.Lexical
