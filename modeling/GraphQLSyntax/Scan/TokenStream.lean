import GraphQLSyntax.Scan.Scanner

/-!
# Token streams

The lexemes of a text one after the other, comments included. A stream ends with the end of input or
with the first text that fits no kind, and gives nothing after that.

* `TokenStream.next`: the next token.
* `TokenStream.toList`: all tokens that are still to come.
-/

namespace GraphQLSyntax

/-- A scanner, and whether its last token has been given. -/
structure TokenStream where
  scanner : Scanner
  finished : Bool
deriving DecidableEq, Repr, Inhabited

namespace TokenStream

/-- All tokens of a text. -/
def ofText (text : String) : TokenStream := ⟨.ofText text, false⟩

/-- The next token, and the stream behind it. Unknown text is given as a failure shows it. -/
def next (s : TokenStream) : Option (Token × TokenStream) :=
  if s.finished then none
  else
    let scanner := s.scanner.advance
    match scanner.lexeme with
    | .eof => some (scanner.token, ⟨scanner, true⟩)
    | .unknown =>
      some (.plain .unknown scanner.failureText scanner.failureSpan, ⟨scanner, true⟩)
    | _ => some (scanner.token, ⟨scanner, false⟩)

/-- A bound on how many tokens are still to come. -/
def remaining (s : TokenStream) : Nat :=
  if s.finished then 0 else s.scanner.cursor.rest.length + 1

theorem remaining_next_lt {s s' : TokenStream} {t : Token} (h : s.next = some (t, s')) :
    s'.remaining < s.remaining := by
  unfold next at h
  split at h
  · simp at h
  · rename_i hs
    dsimp only at h
    split at h
    · cases h
      simp [remaining, hs]
    · cases h
      simp [remaining, hs]
    · rename_i heof hunknown
      cases h
      simpa [remaining, hs] using Scanner.length_advance_lt heof hunknown

/-- The tokens that are still to come. -/
def toList (s : TokenStream) : List Token :=
  match h : s.next with
  | none => []
  | some (t, s') =>
    have := remaining_next_lt h
    t :: s'.toList
termination_by s.remaining

end TokenStream

/-- The tokens of a text up to the end of input, or up to the first text that fits no kind. -/
def Token.listOfText (text : String) : List Token := (TokenStream.ofText text).toList

end GraphQLSyntax
