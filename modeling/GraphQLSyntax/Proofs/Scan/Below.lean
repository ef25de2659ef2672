import GraphQLSyntax.Proofs.Scan.Trail
import GraphQLSyntax.Proofs.Scan.Trivia
import GraphQLSyntax.Proofs.Tree.Moved

/-!
# Scanning below another text

A text may be put below another that ends with its line. Its lines and bytes are counted on from
there, and its columns stay what they are.

* `Position.below`: a position of the text in the whole.
* `Cursor.map`, `Scanner.map`, `SyntaxError.map`: cursors, scanners and errors at other places.
* `Cursor.passAll_of_line`: a text that is put below another starts behind its last line end.
* `Cursor.skipTrivia_below`, `Scanner.ofCursor_below`: what is scanned does not depend on what
  stands above.
-/

namespace GraphQLSyntax

/-- A position of a text that is put below another. -/
def Position.below (above : List Char) (p : Position) : Position :=
  ⟨p.line + Text.lineEnds above, p.column, p.byteOffset + Text.byteLength above⟩

section

variable (f : Position → Position)

def Cursor.map (k : Cursor) : Cursor := { k with position := f k.position }

def Scanner.map (s : Scanner) : Scanner := { s with cursor := s.cursor.map f, start := f s.start }

def Note.map (n : Note) : Note := { n with span := n.span.map (Span.map f) }

def SyntaxError.map (e : SyntaxError) : SyntaxError :=
  { e with span := e.span.map f, notes := e.notes.map (Note.map f) }

end

variable {above : List Char}

/-! ## Cursors -/

namespace Cursor

variable {f : Position → Position}

@[simp] theorem rest_map (k : Cursor) : (k.map f).rest = k.rest := rfl

theorem step_below (k : Cursor) (c : Char) :
    (k.map (.below above)).step c = (k.step c).map (.below above) := by
  obtain ⟨rest, p, afterReturn⟩ := k
  simp only [step, map, Position.below, Position.shiftRight]
  by_cases hline : c = '\n'
  · cases afterReturn <;> simp [hline, Nat.add_right_comm]
  · by_cases hreturn : c = '\r' <;> simp [hline, hreturn, Nat.add_right_comm]

theorem skip_below (k : Cursor) (c : Char) :
    (k.map (.below above)).skip c = (k.skip c).map (.below above) := by
  simp only [skip, step_below]
  by_cases hmark : c = Lexical.byteOrderMark ∧ k.position.column = 1
  · simp [hmark, map, Position.below, Nat.add_right_comm]
  · have hmark' : ¬ (c = Lexical.byteOrderMark ∧ (k.map (.below above)).position.column = 1) :=
      hmark
    rw [if_neg hmark, if_neg hmark']

theorem foldl_below {move : Cursor → Char → Cursor}
    (hmove : ∀ (k : Cursor) c, move (k.map (.below above)) c = (move k c).map (.below above))
    (taken : List Char) (k : Cursor) :
    taken.foldl move (k.map (.below above)) = (taken.foldl move k).map (.below above) := by
  induction taken generalizing k with
  | nil => rfl
  | cons c cs ih => rw [List.foldl_cons, List.foldl_cons, hmove, ih]

theorem consume_below (k : Cursor) (taken : List Char) :
    (k.map (.below above)).consume taken = (k.consume taken).map (.below above) :=
  foldl_below step_below taken k

theorem skipGap_below (k : Cursor) :
    (k.map (.below above)).skipGap = k.skipGap.map (.below above) := foldl_below skip_below _ k

end Cursor

/-! ## Behind a line end -/

/-- Behind a line end, what stands above has been counted, and the columns start anew. -/
theorem Trail.position_of_line {t : Trail} {cs : List Char} (h : t.text = cs ++ ['\n']) :
    t.position = Position.start.below (cs ++ ['\n']) := by
  have hcounted : t.counted = [] := by
    obtain ⟨u, v, rfl, -, hv⟩ := List.map_eq_append_iff.mp h
    obtain ⟨p, rfl, hp⟩ := List.map_eq_singleton_iff.mp hv
    have hbreak : p.inLine = false := by
      rw [Passed.inLine, hp]
      rfl
    rw [counted, List.rtakeWhile_concat_neg _ _ _ (by rw [hbreak]; decide)]
    rfl
  refine Position.ext ?_ ((column_eq_one_iff t).mpr hcounted) ?_
  · rw [position, h]
    rfl
  · rw [position, h]
    exact (Nat.zero_add _).symm

/-- Behind a line end, a cursor stands where a text starts that is put below what stands above. -/
theorem Cursor.passAll_of_line {text text' : String} {t : Trail} {cs : List Char}
    (h : t.text = cs ++ ['\n']) (htext : text.toList = t.text ++ text'.toList) :
    (ofText text).passAll t = (ofText text').map (.below (cs ++ ['\n'])) := by
  have hrest : ((ofText text).passAll t).rest = text'.toList := by
    rw [rest_passAll, ofText, htext]
    exact List.drop_left' (List.length_map _)
  obtain ⟨hposition, hreturn⟩ := position_passAll text t
  rw [Trail.position_of_line h] at hposition
  rw [h, List.getLast?_concat] at hreturn
  generalize (ofText text).passAll t = k at hrest hposition hreturn
  obtain ⟨rest, position, afterReturn⟩ := k
  subst hrest hposition hreturn
  rfl

/-! ## Lexemes -/

theorem Scanner.ofCursor_below (k : Cursor) :
    ofCursor (k.map (.below above)) = (ofCursor k).map (.below above) := by
  rw [ofCursor, Cursor.consume_below]
  rfl

/-- What is skipped between lexemes does not depend on what stands above. -/
theorem Cursor.skipTrivia_below (k : Cursor) :
    (k.map (.below above)).skipTrivia = k.skipTrivia.map (.below above) := by
  fun_induction skipTrivia k with
  | case1 k hcomment ih =>
    rw [skipTrivia.eq_def (k.map _), skipGap_below, Scanner.ofCursor_below]
    exact (if_pos hcomment).trans ih
  | case2 k hcomment =>
    rw [skipTrivia.eq_def (k.map _), skipGap_below, Scanner.ofCursor_below]
    exact if_neg hcomment

namespace Scanner

variable (s : Scanner)

@[simp] theorem lexeme_map (f : Position → Position) : (s.map f).lexeme = s.lexeme := rfl

theorem advancePastComments_below :
    (s.map (.below above)).advancePastComments = s.advancePastComments.map (.below above) := by
  rw [advancePastComments_eq, advancePastComments_eq, ← ofCursor_below, ← Cursor.skipTrivia_below]
  rfl

theorem sigilName_below :
    (s.map (.below above)).sigilName = s.sigilName.map (.below above) := by
  unfold sigilName
  dsimp only [map, Cursor.rest_map]
  split
  · rfl
  · split
    · rw [Cursor.consume_below]
    · rfl

theorem spreadTail?_below :
    (s.map (.below above)).spreadTail? = s.spreadTail?.map (map (.below above)) := by
  unfold spreadTail?
  dsimp only [map, Cursor.rest_map]
  split
  · rfl
  · rw [Cursor.consume_below]
    rfl
  · rfl

theorem objectLiteral_below :
    (s.map (.below above)).objectLiteral = s.objectLiteral.map (.below above) := by
  unfold objectLiteral
  dsimp only [map, Cursor.rest_map]
  rw [Cursor.consume_below]

/-! ## Errors -/

theorem failureSpan_below :
    (s.map (.below above)).failureSpan = s.failureSpan.map (.below above) := by
  unfold failureSpan
  dsimp only [map, Cursor.rest_map]
  split
  · rfl
  · simp only [Span.map, Position.below, Position.shiftRight, Nat.add_right_comm]
  · rfl

theorem error_below (cause : Cause) :
    (s.map (.below above)).error cause = (s.error cause).map (.below above) := by
  rw [error, failureSpan_below]
  rfl

end Scanner

theorem SyntaxError.withNote_map (f : Position → Position) (e : SyntaxError) (note : Note) :
    (e.withNote note).map f = (e.map f).withNote (note.map f) := by
  simp [map, withNote]

namespace Scanner

variable (s : Scanner)

theorem unexpected_below (expected : List String) :
    (s.map (.below above)).unexpected expected = (s.unexpected expected).map (.below above) := by
  rw [unexpected, error_below, unexpected, SyntaxError.withNote_map]
  rfl

theorem unclosed_below (delimiter note : String) (opener : Span) :
    (s.map (.below above)).unclosed delimiter note (opener.map (.below above)) =
      (s.unclosed delimiter note opener).map (.below above) := by
  rw [unclosed, error_below, unclosed, SyntaxError.withNote_map]
  rfl

end Scanner

end GraphQLSyntax
