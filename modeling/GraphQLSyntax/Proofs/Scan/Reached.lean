import GraphQLSyntax.Proofs.Scan.Past
import GraphQLSyntax.Proofs.Scan.Tiling

/-!
# Scanners that steps lead to

A scanner only ever takes the steps that it has: to the next lexeme, or on inside one where the
grammar asks for that.

* `Scanner.Reached`: a scanner and its trail, after any steps from the start of a text.
* `Scanner.Reached.tracked`: it stands at the position behind its trail, and the current lexeme
  starts at such a position.
* `Span.Over`: a span covers what a trail reads in a row.
* `Scanner.AtLexeme`: steps have led a scanner to a lexeme.
-/

namespace GraphQLSyntax

namespace Scanner

/-! ## What steps go past -/

/-- What lies between a scanner and the end of the next lexeme. -/
def trailAhead (s : Scanner) : Trail :=
  (s.cursor.rest.takeWhile Lexical.isGap).map Passed.skip ++ s.advance.text.map Passed.read

/-- What lies between a scanner and the end of the next lexeme that is no comment. -/
def trailPastComments (s : Scanner) : Trail :=
  if s.advance.lexeme = .comment then s.trailAhead ++ s.advance.trailPastComments else s.trailAhead
termination_by s.cursor.rest.length
decreasing_by
  rename_i h
  exact length_advance_lt (by simp [h]) (by simp [h])

/-- Steps from the start of `text` lead to a scanner, past a trail. A single byte is gone past
without looking for a lexeme, and so are the characters of a type. -/
inductive Reached (text : String) : Trail → Scanner → Prop where
  | start : Reached text [] (.ofText text)
  | advance {t : Trail} {s : Scanner} (h : Reached text t s) :
    Reached text (t ++ s.trailAhead) s.advance
  | advancePastComments {t : Trail} {s : Scanner} (h : Reached text t s) :
    Reached text (t ++ s.trailPastComments) s.advancePastComments
  | next {t : Trail} {s : Scanner} {finished : Bool} {token : Token} {behind : TokenStream}
    (h : Reached text t s) (hnext : (⟨s, finished⟩ : TokenStream).next = some (token, behind)) :
    Reached text (t ++ s.trailAhead) behind.scanner
  | sigilName {t : Trail} {s : Scanner} (h : Reached text t s) :
    Reached text (t ++ s.sigilName.text.map Passed.read) s.sigilName
  | spreadTail {t : Trail} {s s' : Scanner} (h : Reached text t s)
    (hspread : s.spreadTail? = some s') : Reached text (t ++ ['.', '.'].map Passed.read) s'
  | objectLiteral {t : Trail} {s : Scanner} (h : Reached text t s) :
    Reached text (t ++ (Lexical.braced 0 s.cursor.rest).2.map Passed.read) s.objectLiteral
  | byte {t : Trail} {s : Scanner} {c : Char} (h : Reached text t s) (hc : c.utf8Size = 1)
    (hrest : s.cursor.rest.head? = some c) :
    Reached text (t ++ [.read c]) { s with cursor := s.cursor.step c }
  | failHere {t : Trail} {s : Scanner} (h : Reached text t s) : Reached text t s.failHere

end Scanner

/-! ## Positions on a trail -/

/-- A position is one that a trail came by. -/
def Trail.At (t : Trail) (p : Position) : Prop :=
  ∃ before : Trail, before <+: t ∧ p = before.position

namespace Trail.At

variable {t u : Trail} {p : Position}

theorem mono (h : t.At p) (htu : t <+: u) : u.At p := by
  obtain ⟨before, hbefore, hp⟩ := h
  exact ⟨before, hbefore.trans htu, hp⟩

theorem append (h : t.At p) (u : Trail) : (t ++ u).At p := h.mono (List.prefix_append t u)

theorem position (t : Trail) : t.At t.position := ⟨t, List.prefix_refl t, rfl⟩

theorem start (t : Trail) : t.At .start := ⟨[], List.nil_prefix, rfl⟩

end Trail.At

/-- A span covers `cs`, which a trail reads in a row. -/
def Span.Over (t : Trail) (cs : List Char) (span : Span) : Prop :=
  ∃ before : Trail, before ++ cs.map .read <+: t ∧
    span = ⟨before.position, (before ++ cs.map Passed.read).position⟩

namespace Span.Over

variable {t u : Trail} {cs : List Char} {span : Span}

theorem mono (h : span.Over t cs) (htu : t <+: u) : span.Over u cs := by
  obtain ⟨before, hbefore, hspan⟩ := h
  exact ⟨before, hbefore.trans htu, hspan⟩

theorem span_at (h : span.Over t cs) : t.At span.start ∧ t.At span.stop := by
  obtain ⟨before, hbefore, rfl⟩ := h
  exact ⟨⟨before, (List.prefix_append _ _).trans hbefore, rfl⟩, _, hbefore, rfl⟩

end Span.Over

namespace Scanner

variable {text : String} {t u : Trail} {s s' : Scanner}

/-- A scanner stands in `text` behind a trail, and its lexeme starts at a position on that trail. -/
structure Tracked (text : String) (t : Trail) (s : Scanner) : Prop where
  text_eq : text.toList = t.text ++ s.cursor.rest
  cursor_eq : s.cursor = (Cursor.ofText text).passAll t
  start_at : t.At s.start

namespace Tracked

theorem past (h : Tracked text t s) : s.cursor.Past text t := ⟨h.text_eq, h.cursor_eq⟩

theorem position_eq (h : Tracked text t s) : s.cursor.position = t.position := h.past.position_eq

/-- A scanner that goes past what stands before it stays tracked, if its lexeme starts on the
way. -/
theorem move (h : Tracked text t s) (u : Trail) (hu : u.text <+: s.cursor.rest)
    (hcursor : s'.cursor = s.cursor.passAll u) (hstart : (t ++ u).At s'.start) :
    Tracked text (t ++ u) s' := by
  have hpast := h.past.passAll hu
  rw [← hcursor] at hpast
  exact ⟨hpast.text_eq, hpast.cursor_eq, hstart⟩

/-- Reading on inside a lexeme keeps a scanner tracked. -/
theorem read (h : Tracked text t s) {taken : List Char} (htaken : taken <+: s.cursor.rest)
    (hcursor : s'.cursor = s.cursor.consume taken)
    (hstart : (t ++ taken.map Passed.read).At s'.start) :
    Tracked text (t ++ taken.map Passed.read) s' := by
  refine h.move _ ?_ ?_ hstart
  · rwa [Trail.text_read]
  · rw [hcursor, Cursor.passAll_read]

theorem advance (h : Tracked text t s) : Tracked text (t ++ s.trailAhead) s.advance := by
  -- The lexeme starts behind the gap, which is gone past first.
  have hgap : Tracked text (t ++ (s.cursor.rest.takeWhile Lexical.isGap).map Passed.skip)
      { s with cursor := s.cursor.skipGap } := by
    refine h.move _ ?_ ?_ (h.start_at.append _)
    · rw [Trail.text_skip]
      exact List.takeWhile_prefix _
    · rw [Cursor.passAll_skip]
      rfl
  rw [Scanner.trailAhead, ← List.append_assoc]
  refine hgap.read (Lexical.classify_isPrefix s.cursor.skipGap.rest) rfl ?_
  have hstart : s.advance.start = s.cursor.skipGap.position := rfl
  rw [hstart, hgap.position_eq]
  exact (Trail.At.position _).append _

theorem advancePastComments (h : Tracked text t s) :
    Tracked text (t ++ s.trailPastComments) s.advancePastComments := by
  fun_induction Scanner.advancePastComments s generalizing t with
  | case1 s hcomment ih =>
    rw [trailPastComments, if_pos hcomment, ← List.append_assoc]
    exact ih h.advance
  | case2 s hcomment =>
    rw [trailPastComments, if_neg hcomment]
    exact h.advance

theorem failHere (h : Tracked text t s) : Tracked text t s.failHere := by
  refine ⟨h.text_eq, h.cursor_eq, ?_⟩
  show t.At s.cursor.position
  rw [h.position_eq]
  exact .position t

theorem sigilName (h : Tracked text t s) :
    Tracked text (t ++ s.sigilName.text.map Passed.read) s.sigilName := by
  have hfail : Tracked text (t ++ s.failHere.text.map Passed.read) s.failHere := by
    rw [Scanner.failHere, List.map_nil, List.append_nil]
    exact h.failHere
  unfold Scanner.sigilName
  split
  · exact hfail
  · split
    · exact h.read (List.takeWhile_prefix _) rfl (h.start_at.append _)
    · exact hfail

end Tracked

/-- **A scanner stands where its trail says.** -/
theorem Reached.tracked (h : Reached text t s) : Tracked text t s := by
  induction h with
  | start => exact ⟨rfl, rfl, .start []⟩
  | advance _ ih => exact ih.advance
  | advancePastComments _ ih => exact ih.advancePastComments
  | @next _ s finished _ _ _ hnext ih =>
    cases finished with
    | false =>
      rw [TokenStream.next_unfinished] at hnext
      cases hnext
      exact ih.advance
    | true =>
      rw [TokenStream.next_finished] at hnext
      cases hnext
  | sigilName _ ih => exact ih.sigilName
  | spreadTail _ hspread ih =>
    obtain ⟨rest, hrest, -, rfl⟩ := spreadTail?_eq_some.mp hspread
    exact ih.read ⟨rest, hrest.symm⟩ rfl (ih.start_at.append _)
  | objectLiteral _ ih =>
    exact ih.read (Lexical.braced_isPrefix 0 _) rfl (ih.start_at.append _)
  | @byte _ s c _ _ hrest ih =>
    obtain ⟨rest, hrest⟩ := List.head?_eq_some_iff.mp hrest
    have htaken : [c] <+: _ := ⟨rest, hrest.symm⟩
    exact ih.read htaken rfl (ih.start_at.append _)
  | failHere _ ih => exact ih.failHere

/-- Where the next lexeme has no text, the cursor stays before it. -/
theorem advance_of_text_nil (h : s.advance.text = []) :
    s.advance.cursor = s.cursor.skipGap ∧ s.advance.start = s.advance.cursor.position := by
  have htaken : (Lexical.classify s.cursor.skipGap.rest).2 = [] := h
  rw [advance_eq, ofCursor, htaken]
  exact ⟨rfl, rfl⟩

namespace Reached

/-- The current lexeme runs between positions on the trail. -/
theorem span_at (h : Reached text t s) : t.At s.span.start ∧ t.At s.span.stop := by
  refine ⟨h.tracked.start_at, ?_⟩
  show t.At s.cursor.position
  rw [h.tracked.position_eq]
  exact .position t

/-- Steps over single bytes lead behind all of them. -/
theorem bytes (h : Reached text t s) {taken : List Char} (htaken : taken <+: s.cursor.rest)
    (hsize : ∀ c ∈ taken, c.utf8Size = 1) :
    Reached text (t ++ taken.map Passed.read) { s with cursor := s.cursor.consume taken } := by
  induction taken generalizing t s with
  | nil =>
    rw [List.map_nil, List.append_nil]
    exact h
  | cons c cs ih =>
    obtain ⟨rest, hrest⟩ := htaken
    have hstep := h.byte (hsize c (by simp)) (by rw [← hrest]; rfl)
    rw [List.map_cons, ← List.singleton_append, ← List.append_assoc]
    refine ih hstep ⟨rest, ?_⟩ fun d hd => hsize d (by simp [hd])
    rw [Cursor.rest_step, ← hrest]
    rfl

/-- A token of a stream runs between the positions of a trail that goes on from its scanner's.
Where the token is a character that starts no lexeme, the trail goes past that character, too. -/
theorem next_span_at (h : Reached text t s) {finished : Bool} {token : Token}
    {behind : TokenStream} (hnext : (⟨s, finished⟩ : TokenStream).next = some (token, behind)) :
    ∃ u : Trail, t ++ s.trailAhead <+: u ∧ u.text <+: text.toList ∧
      u.At token.span.start ∧ u.At token.span.stop := by
  cases finished with
  | true =>
    rw [TokenStream.next_finished] at hnext
    cases hnext
  | false =>
    rw [TokenStream.next_unfinished] at hnext
    cases hnext
    have htext := h.advance.tracked.text_eq
    obtain ⟨hstart, hstop⟩ := h.advance.span_at
    have hwithin : (t ++ s.trailAhead).text <+: text.toList := ⟨_, htext.symm⟩
    unfold shown
    split
    · show ∃ u : Trail, _ ∧ _ ∧ u.At s.advance.failureSpan.start ∧ u.At s.advance.failureSpan.stop
      unfold failureSpan
      split
      · exact ⟨_, List.prefix_refl _, hwithin, hstart, hstart⟩
      · rename_i c cs hnone hrest
        refine ⟨_, List.prefix_append _ [.read c], ?_, hstart.append _, ?_⟩
        · rw [htext, hrest, Trail.text_concat]
          exact ⟨cs, List.append_cons _ _ _ |>.symm⟩
        · -- The character stands behind the gap, so it is no part of a line end.
          obtain ⟨hcursor, hplace⟩ := advance_of_text_nil hnone
          have hc : (Passed.read c).inLine := by
            rw [hcursor] at hrest
            exact Text.inLine_of_not_gap
              (Cursor.head_skipGap (Option.mem_def.mpr (congrArg List.head? hrest)))
          rw [h.advance.tracked.position_eq] at hplace
          refine ⟨_, List.prefix_refl _, ?_⟩
          rw [hplace, Trail.position_concat_inLine _ hc]
          rfl
      · exact ⟨_, List.prefix_refl _, hwithin, hstart, hstop⟩
    · exact ⟨_, List.prefix_refl _, hwithin, hstart, hstop⟩

end Reached

/-! ## Scanners at lexemes -/

/-- Steps have led a scanner to a lexeme of `text`. -/
def AtLexeme (text : String) (s : Scanner) : Prop :=
  (∃ t : Trail, Reached text t s) ∧
    ∃ (t : Trail) (k : Cursor), k.Past text t ∧ StartsLexeme k.rest ∧ s = .ofCursor k

theorem AtLexeme.past (h : s.AtLexeme text) : ∃ t, s.Past text t := by
  obtain ⟨-, t, k, hk, hstarts, rfl⟩ := h
  exact ⟨t, past_ofCursor hk hstarts⟩

/-- The next lexeme that is no comment. -/
theorem Reached.atLexeme (h : Reached text t s) : s.advancePastComments.AtLexeme text := by
  refine ⟨⟨_, h.advancePastComments⟩, ?_⟩
  obtain ⟨-, -, -, hstarts, -⟩ := s.cursor.gap_skipTrivia
  exact ⟨_, _, h.tracked.past.skipTrivia, hstarts, advancePastComments_eq s⟩

end Scanner

end GraphQLSyntax
