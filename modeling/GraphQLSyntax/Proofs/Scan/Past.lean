import GraphQLSyntax.Proofs.Scan.Lines

/-!
# Lexemes behind a trail

Where a lexeme starts, no line end is cut in two: a line feed never starts one, and what a reader
looks at without going past the gap before it stands behind no carriage return.

* `Trail.trivia`: what is gone past up to the next lexeme.
* `Cursor.Past`: a cursor has gone past a trail in a text. `Cursor.Past.skipTrivia` takes it to the
  next lexeme.
* `Scanner.Past`: the current lexeme, or what fails there, starts behind a trail.
* `Trail.Shows`, `Scanner.Past.shows`: what a failure shows there.
-/

namespace GraphQLSyntax

variable {text : String} {t : Trail} {k : Cursor} {s : Scanner}

/-! ## Up to the next lexeme -/

namespace Trail

/-- What is gone past up to the next lexeme. White space and byte order marks are skipped, and a
comment is read up to the end of its line. -/
def trivia : (inComment : Bool) → List Char → Trail
  | _, [] => []
  | false, c :: cs =>
    if Lexical.isGap c then .skip c :: trivia false cs
    else if c = '#' then .read c :: trivia true cs
    else []
  | true, c :: cs =>
    if Text.isLineBreak c then .skip c :: trivia false cs else .read c :: trivia true cs

variable {gap body rest : List Char}

theorem trivia_gap (h : ∀ c ∈ gap, Lexical.isGap c) (rest : List Char) :
    trivia false (gap ++ rest) = gap.map .skip ++ trivia false rest := by
  induction gap with
  | nil => rfl
  | cons c cs ih =>
    obtain ⟨hc, hcs⟩ := List.forall_mem_cons.mp h
    rw [List.cons_append, trivia, if_pos hc, ih hcs]
    rfl

theorem trivia_skipGap (k : Cursor) : trivia false k.rest =
    (k.rest.takeWhile Lexical.isGap).map .skip ++ trivia false k.skipGap.rest := by
  rw [← trivia_gap fun c hc => List.mem_takeWhile_imp hc, ← k.rest_eq_gap_append]

theorem trivia_of_startsLexeme (h : StartsLexeme rest) : trivia false rest = [] := by
  cases rest with
  | nil => rfl
  | cons c cs =>
    obtain ⟨hgap, hhash⟩ := h c rfl
    rw [trivia, if_neg (by simp [hgap]), if_neg hhash]

/-- A comment ends with its line, or with the text. -/
theorem trivia_comment (hbody : ∀ c ∈ body, Text.isLineBreak c = false)
    (hend : ∀ c ∈ rest.head?, Text.isLineBreak c) : trivia false ('#' :: (body ++ rest)) =
      ('#' :: body).map .read ++ trivia false rest := by
  have hline : trivia true (body ++ rest) = body.map .read ++ trivia false rest := by
    induction body with
    | nil =>
      cases rest with
      | nil => rfl
      | cons c cs =>
        have hc := hend c rfl
        rw [List.nil_append, trivia, trivia, if_pos hc, if_pos (Lexical.isGap_of_isLineBreak hc)]
        rfl
    | cons c cs ih =>
      obtain ⟨hc, hcs⟩ := List.forall_mem_cons.mp hbody
      rw [List.cons_append, trivia, if_neg (by simp [hc]), ih hcs]
      rfl
  rw [trivia, if_neg (by decide), if_pos rfl, hline]
  rfl

/-- What is gone past is how the text goes on. -/
theorem text_trivia_isPrefix (inComment : Bool) (cs : List Char) :
    (trivia inComment cs).text <+: cs := by
  fun_induction trivia inComment cs with
  | case1 => exact List.nil_prefix
  | case2 c cs _ ih => exact List.cons_prefix_cons.mpr ⟨rfl, ih⟩
  | case3 cs _ ih => exact List.cons_prefix_cons.mpr ⟨rfl, ih⟩
  | case4 => exact List.nil_prefix
  | case5 c cs _ ih => exact List.cons_prefix_cons.mpr ⟨rfl, ih⟩
  | case6 c cs _ ih => exact List.cons_prefix_cons.mpr ⟨rfl, ih⟩

end Trail

/-! ## Cursors -/

/-- The next lexeme is behind all that. -/
theorem Cursor.passAll_trivia (k : Cursor) :
    k.passAll (Trail.trivia false k.rest) = k.skipTrivia := by
  rw [Trail.trivia_skipGap, passAll_append, passAll_skip, ← skipGap]
  fun_induction Cursor.skipTrivia k with
  | case1 k hcomment ih =>
    -- A comment stands behind the gap.
    obtain ⟨body, rest, hbody, hline, hend, hcursor⟩ := ofCursor_comment hcomment
    have hbehind : (k.skipGap.consume ('#' :: body)).rest = rest :=
      rest_consume_of_append (by rw [hbody, List.cons_append])
    rw [← ih, hcursor, hbody, Trail.trivia_comment hline hend, passAll_append, passAll_read,
      ← hbehind, Trail.trivia_skipGap, passAll_append, passAll_skip, ← skipGap]
  | case2 k hcomment =>
    have hstarts : StartsLexeme k.skipGap.rest := by
      intro c hc
      refine ⟨head_skipGap hc, ?_⟩
      rintro rfl
      exact hcomment (Lexical.classify_comment_iff.mpr hc)
    rw [Trail.trivia_of_startsLexeme hstarts]
    rfl

/-- A cursor stands in `text` behind a trail. -/
structure Cursor.Past (text : String) (t : Trail) (k : Cursor) : Prop where
  text_eq : text.toList = t.text ++ k.rest
  cursor_eq : k = (Cursor.ofText text).passAll t

namespace Cursor.Past

theorem start (text : String) : (ofText text).Past text [] := ⟨rfl, rfl⟩

theorem position_eq (h : k.Past text t) : k.position = t.position := by
  rw [h.cursor_eq]
  exact (position_passAll text t).1

theorem reaches (h : k.Past text t) : k.Reaches text := by
  refine ⟨t.text, h.text_eq, ?_⟩
  rw [h.position_eq]
  rfl

theorem passAll {u : Trail} (h : k.Past text t) (hu : u.text <+: k.rest) :
    (k.passAll u).Past text (t ++ u) := by
  constructor
  · have hrest : (k.passAll u).rest = k.rest.drop u.text.length := by
      rw [rest_passAll, Trail.text, List.length_map]
    rw [Trail.text_append, hrest, List.append_assoc, List.prefix_iff_eq_append.mp hu, h.text_eq]
  · rw [passAll_append, ← h.cursor_eq]

theorem consume {taken : List Char} (h : k.Past text t) (htaken : taken <+: k.rest) :
    (k.consume taken).Past text (t ++ taken.map Passed.read) := by
  rw [← passAll_read]
  exact h.passAll (by rwa [Trail.text_read])

theorem skipGap (h : k.Past text t) :
    k.skipGap.Past text (t ++ (k.rest.takeWhile Lexical.isGap).map Passed.skip) := by
  rw [Cursor.skipGap, ← passAll_skip]
  exact h.passAll (by rw [Trail.text_skip]; exact List.takeWhile_prefix _)

/-- A cursor that goes to the next lexeme goes past everything before it. -/
theorem skipTrivia (h : k.Past text t) :
    k.skipTrivia.Past text (t ++ Trail.trivia false k.rest) := by
  rw [← k.passAll_trivia]
  exact h.passAll (Trail.text_trivia_isPrefix _ _)

end Cursor.Past

/-! ## Scanners -/

namespace Scanner

/-- The current lexeme, or what fails there, starts in `text` behind a trail that ends inside no
line end. The cursor stands behind its text. -/
structure Past (text : String) (t : Trail) (s : Scanner) : Prop where
  text_eq : text.toList = t.text ++ (s.text ++ s.cursor.rest)
  whole : ¬ Text.CutsLineEnd t.text (s.text ++ s.cursor.rest)
  start_eq : s.start = t.position
  cursor_past : s.cursor.Past text (t ++ s.text.map Passed.read)

theorem past_ofCursor (h : k.Past text t) (hstarts : StartsLexeme k.rest) :
    (ofCursor k).Past text t := by
  have htaken := Lexical.classify_isPrefix k.rest
  have hrest : (ofCursor k).text ++ (ofCursor k).cursor.rest = k.rest := by
    rw [ofCursor, Cursor.rest_consume, List.prefix_iff_eq_append.mp htaken]
  refine ⟨by rw [hrest, h.text_eq], ?_, h.position_eq, h.consume htaken⟩
  rw [hrest]
  rintro ⟨-, hfeed⟩
  exact absurd (hstarts '\n' hfeed).1 (by decide)

/-- What fails at a cursor. -/
theorem past_failHere (h : s.cursor.Past text t)
    (hwhole : ¬ Text.CutsLineEnd t.text s.cursor.rest) : s.failHere.Past text t :=
  ⟨h.text_eq, hwhole, h.position_eq, by simpa [failHere] using h⟩

/-- An object literal starts at its brace. -/
theorem Past.objectLiteral (h : s.Past text t) : s.objectLiteral.Past text t := by
  have htaken := Lexical.braced_isPrefix 0 s.cursor.rest
  have hrest : s.objectLiteral.text ++ s.objectLiteral.cursor.rest = s.text ++ s.cursor.rest := by
    rw [Scanner.objectLiteral, List.append_assoc, Cursor.rest_consume,
      List.prefix_iff_eq_append.mp htaken]
  refine ⟨by rw [hrest, h.text_eq], by rw [hrest]; exact h.whole, h.start_eq, ?_⟩
  have hcursor := h.cursor_past.consume htaken
  rwa [List.append_assoc, ← List.map_append] at hcursor

end Scanner

/-! ## Failures -/

/-- What a failure behind a trail shows of the text that follows, and where: the end of the text,
one character, or a lexeme. -/
inductive Trail.Shows (t : Trail) : (after : List Char) → (found : String) → Span → Prop where
  | ending : Shows t [] "EOF" (.emptyAt t.position)
  | char (c : Char) (rest : List Char) : Shows t (c :: rest) (String.ofList [c])
    ⟨t.position, t.position.shiftRight c.utf8Size⟩
  | lexeme (taken rest : List Char) (hne : taken ≠ []) : Shows t (taken ++ rest)
    (String.ofList taken) ⟨t.position, (t ++ taken.map Passed.read).position⟩

theorem Trail.Shows.start_eq {after : List Char} {found : String} {span : Span}
    (h : t.Shows after found span) : span.start = t.position := by
  cases h <;> rfl

/-- What is found follows, unless the text ends. -/
theorem Trail.Shows.follows {after : List Char} {found : String} {span : Span}
    (h : t.Shows after found span) : span.isEmpty = true ∧ found = "EOF" ∧ after = [] ∨
      span.isEmpty = false ∧ found.toList <+: after := by
  cases h with
  | ending => exact .inl ⟨Span.isEmpty_emptyAt _, rfl, rfl⟩
  | char c rest =>
    refine .inr ⟨Span.isEmpty_of_lt ?_, ?_⟩
    · exact Nat.lt_add_of_pos_right c.utf8Size_pos
    · rw [String.toList_ofList]
      exact List.prefix_append [c] rest
  | lexeme taken rest hne =>
    refine .inr ⟨Span.isEmpty_of_lt ?_, ?_⟩
    · rw [byteOffset_read]
      exact Nat.lt_add_of_pos_right (Text.byteLength_pos hne)
    · rw [String.toList_ofList]
      exact List.prefix_append taken rest

theorem Scanner.Past.shows (h : s.Past text t) :
    t.Shows (s.text ++ s.cursor.rest) s.failureText s.failureSpan := by
  have hspan : s.span = ⟨t.position, (t ++ s.text.map Passed.read).position⟩ := by
    rw [span, h.start_eq, h.cursor_past.position_eq]
  unfold failureText failureSpan
  rw [hspan, h.start_eq]
  cases s.text with
  | nil =>
    cases s.cursor.rest with
    | nil => exact .ending
    | cons c rest => exact .char c rest
  | cons c taken => exact .lexeme (c :: taken) _ (by simp)

end GraphQLSyntax
