import Mathlib.Logic.Function.Iterate
import GraphQLSyntax.Scan.TokenStream
import GraphQLSyntax.Proofs.Scan.Trivia

/-!
# Token streams tile their text

The tokens of a text stand one behind the other, and only ignorable characters and byte order marks
stand between them.

* `Token.Tile`: some tokens, with the gaps before each, make up a text.
* `TokenStream.tile_toList`: the tokens of a stream make up the text that it has left.
* `Scanner.visited`: the lexemes that a scanner stops at when it passes over comments.
* `TokenStream.next_behind_iterate`, `TokenStream.visited_eq_filter`: both ways to go through them.
* `Token.listOfText_tiles`: all that holds of the tokens of a text.
-/

namespace GraphQLSyntax

/-- `tokens`, each behind a gap, make up the text `cs` up to `rest`. The text starts at byte
`offset`, and each token covers its own text. -/
def Token.Tile : (offset : Nat) → (tokens : List Token) → (cs rest : List Char) → Prop
  | _, [], cs, rest => cs = rest
  | offset, t :: ts, cs, rest => ∃ gap behind, cs = gap ++ (t.text.toList ++ behind) ∧
    (∀ c ∈ gap, Lexical.isGap c) ∧
    t.span.start.byteOffset = offset + Text.byteLength gap ∧
    t.span.stop.byteOffset = t.span.start.byteOffset + Text.byteLength t.text.toList ∧
    Tile t.span.stop.byteOffset ts behind rest

namespace Token.Tile

variable {offset : Nat} {tokens : List Token} {cs rest : List Char}

/-- Tokens that tile a text start no earlier than the text. -/
theorem offset_le (h : Tile offset tokens cs rest) :
    ∀ t ∈ tokens, offset ≤ t.span.start.byteOffset := by
  induction tokens generalizing offset cs with
  | nil => simp
  | cons t ts ih =>
    obtain ⟨gap, behind, -, -, hstart, hstop, h⟩ := h
    intro u hu
    rcases List.mem_cons.mp hu with rfl | hu
    · omega
    · have := ih h u hu
      omega

/-- Tokens that tile a text stand one behind the other. -/
theorem pairwise (h : Tile offset tokens cs rest) :
    tokens.Pairwise fun a b => a.span.stop.byteOffset ≤ b.span.start.byteOffset := by
  induction tokens generalizing offset cs with
  | nil => exact .nil
  | cons t ts ih =>
    obtain ⟨gap, behind, -, -, -, -, h⟩ := h
    exact .cons h.offset_le (ih h)

/-- Every token of a tiling covers its own text. -/
theorem stop_eq (h : Tile offset tokens cs rest) : ∀ t ∈ tokens,
    t.span.stop.byteOffset = t.span.start.byteOffset + Text.byteLength t.text.toList := by
  induction tokens generalizing offset cs with
  | nil => simp
  | cons t ts ih =>
    obtain ⟨gap, behind, -, -, -, hstop, h⟩ := h
    intro u hu
    rcases List.mem_cons.mp hu with rfl | hu
    · exact hstop
    · exact ih h u hu

/-- What follows the last token of a tiling is the rest of the text. -/
theorem stop_getLast (h : Tile offset tokens cs rest) : ∀ t ∈ tokens.getLast?,
    t.span.stop.byteOffset + Text.byteLength rest = offset + Text.byteLength cs := by
  induction tokens generalizing offset cs with
  | nil => simp
  | cons t ts ih =>
    obtain ⟨gap, behind, rfl, -, hstart, hstop, h⟩ := h
    simp only [Text.byteLength_append]
    intro u hu
    cases ts with
    | nil =>
      rw [List.getLast?_singleton, Option.mem_def, Option.some.injEq] at hu
      subst hu
      cases (h : behind = rest)
      omega
    | cons v vs =>
      have := ih h u (by rwa [List.getLast?_cons_cons] at hu)
      omega

/-- Every token of a tiling has the text at its span. -/
theorem slice {text : String} (before : List Char) (h : Tile offset tokens cs rest)
    (htext : text.toList = before ++ cs) (hoffset : offset = Text.byteLength before) :
    ∀ t ∈ tokens,
      Text.slice? text t.span.start.byteOffset t.span.stop.byteOffset = some t.text := by
  induction tokens generalizing offset cs before with
  | nil => simp
  | cons t ts ih =>
    obtain ⟨gap, behind, rfl, -, hstart, hstop, h⟩ := h
    intro u hu
    rcases List.mem_cons.mp hu with rfl | hu
    · -- The token is the text between the cursors before and behind it.
      have hreach : (⟨u.text.toList ++ behind, u.span.start, false⟩ : Cursor).Reaches text :=
        ⟨before ++ gap, by rw [htext, List.append_assoc],
          by rw [hstart, hoffset, Text.byteLength_append]⟩
      have hbehind : (⟨u.text.toList ++ behind, u.span.start, false⟩ : Cursor).rest =
          u.text.toList ++ (⟨behind, u.span.stop, false⟩ : Cursor).rest := rfl
      have := hreach.slice hbehind hstop
      rwa [String.ofList_toList] at this
    · refine ih (before ++ gap ++ t.text.toList) h ?_ ?_ u hu
      · rw [htext]
        simp only [List.append_assoc]
      · simp only [Text.byteLength_append]
        omega

end Token.Tile

/-! ## The lexemes of a scanner -/

namespace Scanner

/-- The current lexeme as a listing shows it: what fits no kind is shown as a failure shows it. -/
def shown (s : Scanner) : Token :=
  if s.lexeme = .unknown then .plain .unknown s.failureText s.failureSpan else s.token

theorem lexeme_shown (s : Scanner) : s.shown.lexeme = s.lexeme := by
  unfold shown
  split
  · rename_i h
    rw [h]
    rfl
  · rfl

/-- What holds of a scanner as soon as it holds behind the next lexeme, if there is one, holds of
every scanner. -/
theorem scan_induction {P : Scanner → Prop}
    (step : ∀ s, (s.advance.lexeme.isControl = false → P s.advance) → P s) (s : Scanner) : P s := by
  refine step s fun h => ?_
  have h := Lexeme.isControl_eq_false_iff.mp h
  have := length_advance_lt h.1 h.2
  exact scan_induction step s.advance
termination_by s.cursor.rest.length

/-- The text that the current lexeme shows starts what was left before it, and its span covers
it. -/
theorem shown_ofCursor (k : Cursor) : (ofCursor k).shown.span.start = k.position ∧
    (ofCursor k).shown.span.stop.byteOffset =
      k.position.byteOffset + Text.byteLength (ofCursor k).shown.text.toList ∧
    (ofCursor k).shown.text.toList <+: k.rest := by
  obtain ⟨rest, hrest⟩ := Lexical.classify_isPrefix k.rest
  have hcursor : (ofCursor k).cursor.rest = rest := Cursor.rest_consume_of_append hrest.symm
  unfold shown
  split
  · -- A failure shows the text taken, or the one character that starts no lexeme.
    have htext : (ofCursor k).text = (Lexical.classify k.rest).2 := rfl
    unfold failureText failureSpan
    simp only [hcursor]
    cases ht : (ofCursor k).text with
    | nil =>
      rw [← htext, ht, List.nil_append] at hrest
      cases hr : rest with
      | nil =>
        rename_i hunknown
        rw [hr] at hrest
        rw [ofCursor, ← hrest] at hunknown
        cases hunknown
      | cons c cs =>
        rw [hr] at hrest
        refine ⟨rfl, ?_, ?_⟩
        · show k.position.byteOffset + c.utf8Size = _
          simp [Token.plain]
        · rw [← hrest]
          exact ⟨cs, by simp [Token.plain]⟩
    | cons c cs =>
      refine ⟨rfl, ?_, ?_⟩
      · show (k.consume _).position.byteOffset = _
        rw [Cursor.byteOffset_consume, ← htext, ht]
        simp [Token.plain]
      · rw [← hrest, ← htext, ht]
        simp [Token.plain]
  · refine ⟨rfl, ?_, ?_⟩
    · show (k.consume _).position.byteOffset = _
      rw [Cursor.byteOffset_consume]
      simp [token, Token.plain, ofCursor]
    · simp only [token, Token.plain, ofCursor, String.toList_ofList]
      exact Lexical.classify_isPrefix k.rest

/-- Only the end of input shows no text. -/
theorem shown_text_ne_nil {k : Cursor} (h : (ofCursor k).lexeme ≠ .eof) :
    (ofCursor k).shown.text.toList ≠ [] := by
  unfold shown
  split
  · unfold failureText
    cases ht : (ofCursor k).text with
    | nil =>
      cases hr : (ofCursor k).cursor.rest with
      | nil =>
        obtain ⟨rest, hrest⟩ := Lexical.classify_isPrefix k.rest
        have hcursor : (ofCursor k).cursor.rest = rest := Cursor.rest_consume_of_append hrest.symm
        have htext : (ofCursor k).text = (Lexical.classify k.rest).2 := rfl
        rw [← htext, ht, ← hcursor, hr] at hrest
        exact absurd (Lexical.classify_eof_iff.mpr hrest.symm) h
      | cons c cs => simp [Token.plain]
    | cons c cs => simp [Token.plain]
  · rename_i hunknown
    simpa [token, Token.plain, ofCursor] using Lexical.classify_ne_nil h hunknown

/-- The lexemes that a scanner stops at when it passes over comments, up to the end of input or to
the first text that fits no kind. -/
def visited (s : Scanner) : List Token :=
  if s.advancePastComments.lexeme.isControl then [s.advancePastComments.shown]
  else s.advancePastComments.shown :: s.advancePastComments.visited
termination_by s.cursor.rest.length
decreasing_by
  rename_i h
  have h := Lexeme.isControl_eq_false_iff.mp (Bool.eq_false_iff.mpr h)
  exact length_advancePastComments_lt h.1 h.2

end Scanner

/-! ## Streams -/

namespace TokenStream

/-- The stream behind its next token. Where there is none, it stays as it is. -/
def behind (s : TokenStream) : TokenStream := (s.next.map (·.2)).getD s

theorem next_finished (s : Scanner) : (⟨s, true⟩ : TokenStream).next = none := rfl

theorem next_unfinished (s : Scanner) : (⟨s, false⟩ : TokenStream).next =
    some (s.advance.shown, ⟨s.advance, s.advance.lexeme.isControl⟩) := by
  unfold next Scanner.shown
  cases h : s.advance.lexeme <;> simp [h, Lexeme.isControl]

theorem toList_finished (s : Scanner) : (⟨s, true⟩ : TokenStream).toList = [] := by
  rw [toList]
  split
  · rfl
  · rename_i h
    rw [next_finished] at h
    cases h

theorem toList_unfinished (s : Scanner) : (⟨s, false⟩ : TokenStream).toList =
    s.advance.shown :: toList ⟨s.advance, s.advance.lexeme.isControl⟩ := by
  rw [toList]
  split
  · rename_i h
    rw [next_unfinished] at h
    cases h
  · rename_i h
    rw [next_unfinished] at h
    cases h
    rfl

/-- The `n`-th call for a token gives the `n`-th token of the stream, and nothing once they are
used up. -/
theorem next_behind_iterate (s : TokenStream) (n : Nat) :
    ((behind^[n] s).next.map (·.1)) = s.toList[n]? := by
  induction n generalizing s with
  | zero =>
    obtain ⟨scanner, _ | _⟩ := s
    · rw [Function.iterate_zero_apply, toList_unfinished, next_unfinished]
      rfl
    · rw [Function.iterate_zero_apply, toList_finished, next_finished]
      rfl
  | succ n ih =>
    rw [Function.iterate_succ_apply, ih]
    obtain ⟨scanner, _ | _⟩ := s
    · rw [behind, next_unfinished, toList_unfinished, List.getElem?_cons_succ]
      rfl
    · rw [behind, next_finished, Option.map_none, Option.getD_none, toList_finished]
      rfl

/-- A stream ends with its only token that fits no kind or is the end of input. -/
theorem toList_eq_append (s : Scanner) : ∃ init last,
    (⟨s, false⟩ : TokenStream).toList = init ++ [last] ∧ last.lexeme.isControl ∧
      ∀ t ∈ init, t.lexeme.isControl = false := by
  induction s using Scanner.scan_induction with
  | step s ih =>
    rw [toList_unfinished]
    cases h : s.advance.lexeme.isControl with
    | true =>
      rw [toList_finished]
      exact ⟨[], s.advance.shown, rfl, by rwa [Scanner.lexeme_shown], by simp⟩
    | false =>
      obtain ⟨init, last, heq, hlast, hinit⟩ := ih h
      refine ⟨s.advance.shown :: init, last, by rw [heq]; rfl, hlast, ?_⟩
      rintro t (_ | ⟨_, ht⟩)
      · rwa [Scanner.lexeme_shown]
      · exact hinit t ht

/-- The tokens of a stream make up the text that it has left, all of it where the last of them is
the end of input. -/
theorem tile_toList (s : Scanner) : ∃ rest,
    Token.Tile s.cursor.position.byteOffset (toList ⟨s, false⟩) s.cursor.rest rest ∧
      ∀ t ∈ (toList ⟨s, false⟩).getLast?, t.lexeme = .eof → t.text = "" ∧ rest = [] := by
  induction s using Scanner.scan_induction with
  | step s ih =>
    rw [toList_unfinished]
    obtain ⟨hstart, hstop, behind, hbehind⟩ := Scanner.shown_ofCursor s.cursor.skipGap
    rw [← Scanner.advance_eq] at hstart hstop hbehind
    have hcons {ts : List Token} {rest : List Char}
        (h : Token.Tile s.advance.shown.span.stop.byteOffset ts behind rest) :
        Token.Tile s.cursor.position.byteOffset (s.advance.shown :: ts) s.cursor.rest rest := by
      refine ⟨s.cursor.rest.takeWhile Lexical.isGap, behind, ?_, ?_, ?_, ?_, h⟩
      · rw [hbehind, ← Cursor.rest_eq_gap_append]
      · exact fun c hc => List.mem_takeWhile_imp hc
      · rw [hstart, Cursor.byteOffset_skipGap]
      · rw [hstop, hstart]
    cases h : s.advance.lexeme.isControl with
    | true =>
      rw [toList_finished]
      refine ⟨behind, hcons rfl, ?_⟩
      intro t ht heof
      rw [List.getLast?_singleton, Option.mem_def, Option.some.injEq] at ht
      subst ht
      -- Nothing is left at the end of input.
      rw [Scanner.lexeme_shown, Scanner.lexeme_advance, Lexical.classify_eof_iff,
        ← Cursor.rest_skipGap] at heof
      rw [heof, List.append_eq_nil_iff, String.toList_eq_nil_iff] at hbehind
      exact hbehind
    | false =>
      obtain ⟨rest, htile, hlast⟩ := ih h
      have hunknown := (Lexeme.isControl_eq_false_iff.mp h).2
      have hshown : s.advance.shown = s.advance.token := by rw [Scanner.shown, if_neg hunknown]
      have hrest : s.advance.cursor.rest = behind := by
        rw [hshown, Scanner.token, Token.plain, String.toList_ofList] at hbehind
        exact Cursor.rest_consume_of_append hbehind.symm
      refine ⟨rest, hcons ?_, ?_⟩
      · rw [← hrest, hshown]
        exact htile
      · intro t ht
        have hcons := toList_unfinished s.advance
        rw [hcons, List.getLast?_cons_cons, ← hcons] at ht
        exact hlast t ht

/-- Every token but the end of input covers something. -/
theorem text_ne_nil_of_mem (s : Scanner) :
    ∀ t ∈ (⟨s, false⟩ : TokenStream).toList, t.lexeme ≠ .eof → t.text.toList ≠ [] := by
  induction s using Scanner.scan_induction with
  | step s ih =>
    rw [toList_unfinished]
    rintro t (_ | ⟨_, ht⟩) heof
    · rw [Scanner.lexeme_shown] at heof
      exact Scanner.shown_text_ne_nil heof
    · cases h : s.advance.lexeme.isControl with
      | true =>
        rw [h, toList_finished] at ht
        cases ht
      | false =>
        rw [h] at ht
        exact ih h t ht heof

/-- Passing over comments visits the tokens of a stream that are none. -/
theorem visited_eq_filter (s : Scanner) :
    s.visited = (⟨s, false⟩ : TokenStream).toList.filter (·.lexeme ≠ .comment) := by
  induction s using Scanner.scan_induction with
  | step s ih =>
    rw [toList_unfinished]
    by_cases hcomment : s.advance.lexeme = .comment
    · have hcontrol : s.advance.lexeme.isControl = false := by rw [hcomment]; rfl
      have hvisited : s.visited = s.advance.visited := by
        rw [Scanner.visited, Scanner.visited.eq_def s.advance,
          Scanner.advancePastComments.eq_def s, if_pos hcomment]
      rw [hvisited, ih hcontrol, hcontrol, List.filter_cons_of_neg]
      rw [Scanner.lexeme_shown, hcomment]
      simp
    · have hadvance : s.advancePastComments = s.advance := by
        rw [Scanner.advancePastComments, if_neg hcomment]
      rw [Scanner.visited, hadvance, List.filter_cons_of_pos (by simpa [Scanner.lexeme_shown])]
      cases h : s.advance.lexeme.isControl with
      | true => rw [toList_finished]; rfl
      | false => rw [ih h]; rfl

end TokenStream

/-- **The tokens of a text tile it.** They end with the only one of them that is the end of input or
fits no kind, and a stream gives them one by one and nothing after the last. They stand one behind
the other, each has the text at its span, and only ignorable characters and byte order marks stand
between them. An end of input is empty and has everything before it. A scanner that passes over
comments visits the same tokens without the comments. -/
theorem Token.listOfText_tiles (text : String) :
    (∃ init last, listOfText text = init ++ [last] ∧ last.lexeme.isControl ∧
      ∀ t ∈ init, t.lexeme.isControl = false) ∧
    (∀ n, (TokenStream.behind^[n] (.ofText text)).next.map (·.1) = (listOfText text)[n]?) ∧
    (listOfText text).Pairwise (fun a b => a.span.stop.byteOffset ≤ b.span.start.byteOffset) ∧
    (∀ t ∈ listOfText text, t.lexeme ≠ .eof →
      t.span.start.byteOffset < t.span.stop.byteOffset) ∧
    (∀ t ∈ listOfText text,
      Text.slice? text t.span.start.byteOffset t.span.stop.byteOffset = some t.text) ∧
    (∃ rest, Tile 0 (listOfText text) text.toList rest ∧
      ∀ t ∈ (listOfText text).getLast?, t.lexeme = .eof → rest = [] ∧
        t.span.start.byteOffset = Text.byteLength text.toList ∧
        t.span.stop.byteOffset = Text.byteLength text.toList) ∧
    (Scanner.ofText text).visited = (listOfText text).filter (·.lexeme ≠ .comment) := by
  obtain ⟨rest, htile, hlast⟩ := TokenStream.tile_toList (.ofText text)
  have htile : Tile 0 (listOfText text) text.toList rest := htile
  refine ⟨TokenStream.toList_eq_append _, TokenStream.next_behind_iterate _, htile.pairwise,
    fun t ht heof => ?_, htile.slice [] rfl rfl, ⟨rest, htile, fun t ht heof => ?_⟩,
    TokenStream.visited_eq_filter _⟩
  · have htext := TokenStream.text_ne_nil_of_mem (.ofText text) t ht heof
    have hpos := Text.byteLength_pos htext
    have := htile.stop_eq t ht
    omega
  · obtain ⟨htext, rfl⟩ := hlast t ht heof
    have hstop := htile.stop_getLast t ht
    have hstart := htile.stop_eq t (List.mem_of_getLast? ht)
    rw [htext] at hstart
    simp only [String.toList_empty, Text.byteLength_nil] at hstart hstop
    exact ⟨rfl, by omega, by omega⟩

end GraphQLSyntax
