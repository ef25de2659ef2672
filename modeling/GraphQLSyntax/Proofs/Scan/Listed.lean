import GraphQLSyntax.Proofs.Scan.Reached

/-!
# The trail of a listing

A listing skips what stands between lexemes, and reads what it shows of each lexeme. It goes on up
to the end of the text, or up to the first text that fits no kind.

* `Scanner.listed`: what a listing goes past.
* `Scanner.text_listed_isPrefix`: that is how the text goes on.
* `Scanner.shown_of_mem`: every token is what a scanner shows of a lexeme on the way, and its span
  covers that.
-/

namespace GraphQLSyntax

variable {text : String} {t : Trail} {k : Cursor} {s : Scanner}

namespace Scanner

/-- What a listing goes past from a scanner on up to the end of the next token. -/
def listedAhead (s : Scanner) : Trail :=
  (s.cursor.rest.takeWhile Lexical.isGap).map .skip ++ s.advance.shown.text.toList.map .read

/-- What a listing goes past from a scanner on. -/
def listed (s : Scanner) : Trail :=
  if s.advance.lexeme.isControl then s.listedAhead else s.listedAhead ++ s.advance.listed
termination_by s.cursor.rest.length
decreasing_by
  rename_i h
  obtain ⟨heof, hunknown⟩ := Lexeme.isControl_eq_false_iff.mp (Bool.eq_false_iff.mpr h)
  exact length_advance_lt heof hunknown

theorem listedAhead_isPrefix (s : Scanner) : s.listedAhead <+: s.listed := by
  rw [listed]
  split
  · exact List.prefix_refl _
  · exact List.prefix_append _ _

/-- What is shown of a lexeme that fits a kind is all of its text. -/
theorem listedAhead_eq (h : s.advance.lexeme.isControl = false) : s.listedAhead = s.trailAhead := by
  obtain ⟨-, hunknown⟩ := Lexeme.isControl_eq_false_iff.mp h
  rw [listedAhead, shown, if_neg hunknown, token, Token.plain, String.toList_ofList, trailAhead]

/-- A cursor that goes to the next lexeme goes past what is listed. -/
theorem past_listedAhead (h : s.cursor.Past text t)
    (hcontrol : s.advance.lexeme.isControl = false) :
    s.advance.cursor.Past text (t ++ s.listedAhead) := by
  have hbehind := h.skipGap.consume (Lexical.classify_isPrefix s.cursor.skipGap.rest)
  rw [List.append_assoc] at hbehind
  rw [listedAhead_eq hcontrol]
  exact hbehind

/-- What a listing goes past is how the text goes on. -/
theorem text_listed_isPrefix (h : s.cursor.Past text t) :
    (t ++ s.listed).text <+: text.toList := by
  induction s using scan_induction generalizing t with
  | step s ih =>
    rw [listed]
    cases hcontrol : s.advance.lexeme.isControl with
    | true =>
      have hgap := h.skipGap
      rw [if_pos rfl, listedAhead, ← List.append_assoc, Trail.text_append, Trail.text_read,
        hgap.text_eq]
      rw [advance_eq]
      exact (List.prefix_append_right_inj _).mpr (shown_ofCursor _).2.2
    | false =>
      rw [if_neg (by decide), ← List.append_assoc]
      exact ih hcontrol (past_listedAhead h hcontrol)

/-- What is shown of a lexeme is read from where it starts. -/
theorem span_shown (h : k.Past text t) (hhead : ∀ c ∈ k.rest.head?, Lexical.isGap c = false) :
    (ofCursor k).shown.span =
      ⟨t.position, (t ++ (ofCursor k).shown.text.toList.map Passed.read).position⟩ := by
  have htaken := Lexical.classify_isPrefix k.rest
  have hrest : (ofCursor k).text ++ (ofCursor k).cursor.rest = k.rest := by
    rw [ofCursor, Cursor.rest_consume, List.prefix_iff_eq_append.mp htaken]
  have hspan : (ofCursor k).span =
      ⟨t.position, (t ++ (ofCursor k).text.map Passed.read).position⟩ :=
    congrArg₂ Span.mk h.position_eq (h.consume htaken).position_eq
  have hstart : (ofCursor k).start = t.position := h.position_eq
  unfold shown
  split
  · rename_i hunknown
    rw [Token.plain]
    cases hnone : (ofCursor k).text with
    | cons c cs =>
      obtain ⟨hfound, hfailure⟩ := failure_of_text (s := ofCursor k) (by simp [hnone])
      rw [hfound, hfailure, String.toList_ofList, hspan]
    | nil =>
      rw [hnone, List.nil_append] at hrest
      cases hcursor : (ofCursor k).cursor.rest with
      | nil =>
        rw [hcursor] at hrest
        rw [ofCursor, ← hrest] at hunknown
        cases hunknown
      | cons c rest =>
        -- The character is no gap, so it ends no line.
        obtain ⟨hfound, hfailure⟩ := failure_of_char hnone hcursor
        have hc : Text.inLine c :=
          Text.inLine_of_not_gap (hhead c (by rw [← hrest, hcursor]; rfl))
        have hmoved := t.position_read (List.forall_mem_singleton.mpr hc)
        rw [hfound, hfailure, hstart, String.toList_singleton, hmoved, Text.byteLength_cons,
          Text.byteLength_nil, Nat.add_zero]
  · rw [token, Token.plain, String.toList_ofList]
    exact hspan

/-- The tokens of a listing are what is shown of the lexemes that it comes to. The span of each
covers what is read there. -/
theorem shown_of_mem (h : s.cursor.Past text t) :
    ∀ token ∈ (⟨s, false⟩ : TokenStream).toList,
      (∃ k, k.Reaches text ∧ token = (ofCursor k).shown) ∧
        token.span.Over (t ++ s.listed) token.text.toList := by
  induction s using scan_induction generalizing t with
  | step s ih =>
    intro token htoken
    rw [TokenStream.toList_unfinished] at htoken
    obtain rfl | hbehind := List.mem_cons.mp htoken
    · have hgap := h.skipGap
      have hspan := span_shown hgap fun c hc => Cursor.head_skipGap hc
      rw [← advance_eq] at hspan
      refine ⟨⟨_, hgap.reaches, by rw [advance_eq]⟩, _, ?_, hspan⟩
      rw [List.append_assoc]
      exact (List.prefix_append_right_inj t).mpr s.listedAhead_isPrefix
    · cases hcontrol : s.advance.lexeme.isControl with
      | true =>
        rw [hcontrol, TokenStream.toList_finished] at hbehind
        cases hbehind
      | false =>
        rw [hcontrol] at hbehind
        rw [listed, if_neg (by simp [hcontrol]), ← List.append_assoc]
        exact ih hcontrol (past_listedAhead h hcontrol) token hbehind

end Scanner

end GraphQLSyntax
