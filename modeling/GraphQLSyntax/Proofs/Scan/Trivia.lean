import Mathlib.Data.List.TakeWhile
import GraphQLSyntax.Proofs.Lexical.First
import GraphQLSyntax.Proofs.Scan.Offset

/-!
# The text between lexemes

Ignorable characters, byte order marks and comments may stand between two lexemes.

* `Gap`: such a text, in front of what follows it. `GapText`: one that may stand in front of
  anything.
* `Cursor.skipTrivia`: the cursor before the next lexeme that is no comment.
* `Scanner.advancePastComments_eq`: the scanner goes on exactly there.
* `Cursor.gap_skipTrivia`, `Cursor.rest_skipTrivia_of_gap`: what is skipped is the one gap that
  stands in front of a lexeme.
* `Cursor.skipTrivia_eq_consume`: ignorable characters are skipped as if they were consumed.
-/

namespace GraphQLSyntax

/-- `gap` may stand between lexemes, in front of `rest`. It is made of ignorable characters, byte
order marks, and comments that run to the end of their line. -/
inductive Gap : (gap rest : List Char) → Prop where
  | nil (rest : List Char) : Gap [] rest
  | ignorable {c : Char} {gap rest : List Char} (hc : Lexical.isGap c) (h : Gap gap rest) :
    Gap (c :: gap) rest
  | comment {body gap rest : List Char} (hbody : ∀ c ∈ body, Text.isLineBreak c = false)
    (hend : ∀ c ∈ (gap ++ rest).head?, Text.isLineBreak c) (h : Gap gap rest) :
    Gap ('#' :: (body ++ gap)) rest

/-- `gap` may stand between lexemes, in front of anything. It is made of ignorable characters, byte
order marks, and comments that each end with a line. -/
inductive GapText : (gap : List Char) → Prop where
  | nil : GapText []
  | ignorable {c : Char} {gap : List Char} (hc : Lexical.isGap c) (h : GapText gap) :
    GapText (c :: gap)
  | comment {body gap : List Char} {c : Char} (hbody : ∀ d ∈ body, Text.isLineBreak d = false)
    (hc : Text.isLineBreak c) (h : GapText gap) : GapText ('#' :: (body ++ c :: gap))

/-- A text that starts neither with a gap nor with a comment. -/
def StartsLexeme (cs : List Char) : Prop := ∀ c ∈ cs.head?, Lexical.isGap c = false ∧ c ≠ '#'

theorem startsLexeme_of_classify {cs : List Char} (hunknown : (Lexical.classify cs).1 ≠ .unknown)
    (hcomment : (Lexical.classify cs).1 ≠ .comment) : StartsLexeme cs := by
  intro c hc
  cases cs with
  | nil => cases hc
  | cons d cs =>
    cases hc
    refine ⟨Bool.eq_false_iff.mpr fun hgap => ?_, fun hhash => ?_⟩
    · exact hunknown (congrArg Prod.fst (Lexical.classify_gap hgap cs))
    · exact hcomment (Lexical.classify_comment_iff.mpr (congrArg some hhash))

namespace Gap

variable {gap gap' rest rest' : List Char}

theorem append (h : Gap gap (gap' ++ rest)) (h' : Gap gap' rest) : Gap (gap ++ gap') rest := by
  generalize hfollow : gap' ++ rest = follow at h
  induction h with
  | nil => exact h'
  | ignorable hc _ ih => exact .ignorable hc (ih hfollow)
  | comment hbody hend _ ih =>
    subst hfollow
    rw [List.cons_append, List.append_assoc]
    exact .comment hbody (by rwa [List.append_assoc]) (ih rfl)

/-- Characters that are all ignorable, or byte order marks, are a gap in front of anything. -/
theorem of_isGap (h : ∀ c ∈ gap, Lexical.isGap c) (rest : List Char) : Gap gap rest := by
  induction gap with
  | nil => exact .nil rest
  | cons c cs ih =>
    exact .ignorable (h c (by simp)) (ih fun d hd => h d (by simp [hd]))

theorem startsLexeme_hash (cs : List Char) : ¬ StartsLexeme ('#' :: cs) := by
  intro h
  exact (h '#' rfl).2 rfl

/-- What takes the characters of a line and stops at its end is determined by the text. -/
theorem takeWhile_line {body rest : List Char} (hbody : ∀ c ∈ body, Text.isLineBreak c = false)
    (hend : ∀ c ∈ rest.head?, Text.isLineBreak c) :
    (body ++ rest).takeWhile (fun c => !Text.isLineBreak c) = body := by
  rw [List.takeWhile_append_of_pos (by simpa using hbody)]
  cases rest with
  | nil => simp
  | cons c cs => simp [hend c rfl]

/-- Only one gap stands in front of a lexeme. -/
theorem unique (h : Gap gap rest) (hrest : StartsLexeme rest) (h' : Gap gap' rest')
    (hrest' : StartsLexeme rest') (heq : gap ++ rest = gap' ++ rest') : rest = rest' := by
  induction h generalizing gap' with
  | nil rest =>
    cases h' with
    | nil => exact heq
    | ignorable hc _ =>
      rw [List.nil_append] at heq
      subst heq
      have := (hrest _ rfl).1
      rw [hc] at this
      cases this
    | comment =>
      rw [List.nil_append] at heq
      subst heq
      exact absurd hrest (startsLexeme_hash _)
  | @ignorable c gap rest hc h ih =>
    cases h' with
    | nil =>
      rw [List.nil_append] at heq
      subst heq
      have := (hrest' _ rfl).1
      rw [hc] at this
      cases this
    | ignorable hc' h' =>
      rw [List.cons_append, List.cons_append, List.cons.injEq] at heq
      exact ih hrest h' heq.2
    | comment =>
      rw [List.cons_append, List.cons_append, List.cons.injEq] at heq
      rw [heq.1] at hc
      exact absurd hc (by decide)
  | @comment body gap rest hbody hend h ih =>
    cases h' with
    | nil =>
      rw [List.nil_append] at heq
      subst heq
      exact absurd hrest' (startsLexeme_hash _)
    | ignorable hc' h' =>
      rw [List.cons_append, List.cons_append, List.cons.injEq] at heq
      rw [← heq.1] at hc'
      exact absurd hc' (by decide)
    | @comment body' gap' _ hbody' hend' h' =>
      -- Both comments end with their line, so they are one and the same.
      rw [List.cons_append, List.cons_append, List.cons.injEq, List.append_assoc,
        List.append_assoc] at heq
      have hline := takeWhile_line hbody hend
      rw [heq.2, takeWhile_line hbody' hend'] at hline
      subst hline
      exact ih hrest h' (List.append_cancel_left heq.2)

end Gap

/-- Line breaks may stand between lexemes. -/
theorem Lexical.isGap_of_isLineBreak {c : Char} (h : Text.isLineBreak c) : isGap c := by
  rcases Bool.or_eq_true_iff.mp h with h | h <;> rw [beq_iff_eq.mp h] <;> rfl

namespace GapText

variable {gap gap' rest : List Char}

theorem append (h : GapText gap) (h' : GapText gap') : GapText (gap ++ gap') := by
  induction h with
  | nil => exact h'
  | ignorable hc _ ih => exact .ignorable hc ih
  | comment hbody hc _ ih =>
    rw [List.cons_append, List.append_assoc, List.cons_append]
    exact .comment hbody hc ih

theorem before (h : GapText gap) (rest : List Char) : Gap gap rest := by
  induction h with
  | nil => exact .nil rest
  | ignorable hc _ ih => exact .ignorable hc ih
  | comment hbody hc _ ih =>
    refine .comment hbody ?_ (.ignorable (Lexical.isGap_of_isLineBreak hc) ih)
    rintro d ⟨⟩
    exact hc

/-- What stands before a lexeme may stand before anything: the line of every comment ends before
the lexeme starts. -/
theorem of_gap (h : Gap gap rest) (hrest : StartsLexeme rest) (hne : rest ≠ []) : GapText gap := by
  induction h with
  | nil => exact .nil
  | ignorable hc _ ih => exact .ignorable hc (ih hrest hne)
  | @comment body gap rest hbody hend h ih =>
    cases gap with
    | nil =>
      obtain ⟨c, cs, rfl⟩ := List.exists_cons_of_ne_nil hne
      have hgap := Lexical.isGap_of_isLineBreak (hend c rfl)
      rw [(hrest c rfl).1] at hgap
      cases hgap
    | cons c gap =>
      have hc := hend c rfl
      cases ih hrest hne with
      | ignorable _ h => exact .comment hbody hc h
      | comment => cases hc

/-- What stands before the end of a text may stand before anything once it is a line that ends
there. -/
theorem of_gap_line {c : Char} (h : Gap gap rest) (hrest : rest = []) (hc : Text.isLineBreak c) :
    GapText (gap ++ [c]) := by
  induction h with
  | nil => exact .ignorable (Lexical.isGap_of_isLineBreak hc) .nil
  | ignorable hd _ ih => exact .ignorable hd (ih hrest)
  | @comment body gap rest hbody hend _ ih =>
    rw [List.cons_append, List.append_assoc]
    cases gap with
    | nil => exact .comment hbody hc .nil
    | cons d gap =>
      have hd := hend d rfl
      have hgap := ih hrest
      rw [List.cons_append] at hgap ⊢
      generalize gap ++ [c] = gap at hgap
      cases hgap with
      | ignorable _ h => exact .comment hbody hd h
      | comment => cases hd

end GapText

/-! ## The next lexeme -/

/-- The scanner that has scanned the lexeme which `k` stands before. -/
def Scanner.ofCursor (k : Cursor) : Scanner :=
  ⟨k.consume (Lexical.classify k.rest).2, (Lexical.classify k.rest).1, k.position,
    (Lexical.classify k.rest).2⟩

theorem Scanner.advance_eq (s : Scanner) : s.advance = .ofCursor s.cursor.skipGap := rfl

/-- The cursor before the next lexeme that is no comment. -/
def Cursor.skipTrivia (k : Cursor) : Cursor :=
  if (Scanner.ofCursor k.skipGap).lexeme = .comment then
    (Scanner.ofCursor k.skipGap).cursor.skipTrivia
  else k.skipGap
termination_by k.rest.length
decreasing_by
  rename_i h
  have := Scanner.length_advance_lt (s := ⟨k, .unknown, .start, []⟩)
    (by rw [Scanner.advance_eq, h]; decide) (by rw [Scanner.advance_eq, h]; decide)
  exact this

/-- The scanner goes on at the lexeme behind the trivia. -/
theorem Scanner.advancePastComments_eq (s : Scanner) :
    s.advancePastComments = .ofCursor s.cursor.skipTrivia := by
  fun_induction advancePastComments s with
  | case1 s h ih =>
    rw [ih, Cursor.skipTrivia.eq_def s.cursor, if_pos (by rwa [advance_eq] at h), advance_eq]
  | case2 s h =>
    rw [Cursor.skipTrivia, if_neg (by rwa [advance_eq] at h), advance_eq]

namespace Cursor

/-- The gap of ignorable characters that stands at a cursor. -/
theorem rest_eq_gap_append (k : Cursor) :
    k.rest = k.rest.takeWhile Lexical.isGap ++ k.skipGap.rest := by
  rw [rest_skipGap, List.takeWhile_append_dropWhile]

theorem head_skipGap {k : Cursor} {c : Char} (h : c ∈ k.skipGap.rest.head?) :
    Lexical.isGap c = false := by
  rw [rest_skipGap] at h
  have := List.head?_dropWhile_not Lexical.isGap k.rest
  cases hrest : (k.rest.dropWhile Lexical.isGap).head? with
  | none => rw [hrest] at h; cases h
  | some d =>
    rw [hrest] at h this
    cases h
    simpa using this

/-- A comment is taken up to the end of its line. -/
theorem ofCursor_comment {k : Cursor} (h : (Scanner.ofCursor k).lexeme = .comment) :
    ∃ body rest, k.rest = '#' :: (body ++ rest) ∧ (∀ c ∈ body, Text.isLineBreak c = false) ∧
      (∀ c ∈ rest.head?, Text.isLineBreak c) ∧
      (Scanner.ofCursor k).cursor = k.consume ('#' :: body) := by
  have hhead := Lexical.classify_comment_iff.mp h
  cases hk : k.rest with
  | nil => rw [hk] at hhead; cases hhead
  | cons c cs =>
    rw [hk, List.head?_cons, Option.some.injEq] at hhead
    subst hhead
    refine ⟨cs.takeWhile fun d => !Text.isLineBreak d, cs.dropWhile fun d => !Text.isLineBreak d,
      ?_, ?_, ?_, ?_⟩
    · rw [List.takeWhile_append_dropWhile]
    · intro c hc
      simpa using List.mem_takeWhile_imp hc
    · intro c hc
      have := List.head?_dropWhile_not (fun d => !Text.isLineBreak d) cs
      rw [hc] at this
      simpa using this
    · rw [Scanner.ofCursor, hk]
      rfl

/-- What is skipped is a gap in front of a lexeme, and the cursor moves by its bytes. -/
theorem gap_skipTrivia (k : Cursor) : ∃ gap, k.rest = gap ++ k.skipTrivia.rest ∧
    Gap gap k.skipTrivia.rest ∧ StartsLexeme k.skipTrivia.rest ∧
    k.skipTrivia.position.byteOffset = k.position.byteOffset + Text.byteLength gap := by
  fun_induction skipTrivia k with
  | case1 k h ih =>
    -- A comment stands behind the ignorable characters, and the next gap behind the comment.
    obtain ⟨gap, hrest, hgap, hstarts, hoffset⟩ := ih
    obtain ⟨body, rest, hcomment, hbody, hend, hcursor⟩ := ofCursor_comment h
    have hbehind : rest = gap ++ (Scanner.ofCursor k.skipGap).cursor.skipTrivia.rest := by
      rw [← hrest, hcursor, rest_consume_of_append (by rw [hcomment, List.cons_append])]
    refine ⟨k.rest.takeWhile Lexical.isGap ++ '#' :: (body ++ gap), ?_, ?_, hstarts, ?_⟩
    · conv => lhs; rw [rest_eq_gap_append k, hcomment, hbehind]
      simp only [List.append_assoc, List.cons_append]
    · refine Gap.append (.of_isGap (fun c hc => List.mem_takeWhile_imp hc) _)
        (.comment hbody (by rwa [← hbehind]) hgap)
    · rw [hoffset, hcursor, byteOffset_consume, byteOffset_skipGap]
      simp only [Text.byteLength_append, Text.byteLength_cons]
      omega
  | case2 k h =>
    refine ⟨k.rest.takeWhile Lexical.isGap, rest_eq_gap_append k,
      .of_isGap (fun c hc => List.mem_takeWhile_imp hc) _, ?_, byteOffset_skipGap k⟩
    intro c hc
    refine ⟨head_skipGap hc, ?_⟩
    rintro rfl
    exact h (Lexical.classify_comment_iff.mpr hc)

theorem byteOffset_le_skipTrivia (k : Cursor) :
    k.position.byteOffset ≤ k.skipTrivia.position.byteOffset := by
  obtain ⟨gap, -, -, -, hoffset⟩ := k.gap_skipTrivia
  omega

/-- A cursor in front of a gap and a lexeme goes on at the lexeme. -/
theorem rest_skipTrivia_of_gap {k : Cursor} {gap rest : List Char} (hrest : k.rest = gap ++ rest)
    (hgap : Gap gap rest) (hstarts : StartsLexeme rest) : k.skipTrivia.rest = rest := by
  obtain ⟨gap', hrest', hgap', hstarts', -⟩ := k.gap_skipTrivia
  exact Gap.unique hgap' hstarts' hgap hstarts (by rw [← hrest, ← hrest'])

theorem Reaches.skipTrivia {text : String} {k : Cursor} (h : k.Reaches text) :
    k.skipTrivia.Reaches text := by
  obtain ⟨gap, hrest, -, -, hoffset⟩ := k.gap_skipTrivia
  exact h.move gap hrest hoffset

/-- The next lexeme is never a comment. -/
theorem lexeme_skipTrivia_ne_comment (k : Cursor) :
    (Scanner.ofCursor k.skipTrivia).lexeme ≠ .comment := by
  intro h
  obtain ⟨-, -, -, hstarts, -⟩ := k.gap_skipTrivia
  exact (hstarts '#' (Lexical.classify_comment_iff.mp h)).2 rfl

/-! ## Going past a gap -/

theorem skipGap_of_head {k : Cursor} (h : ∀ c ∈ k.rest.head?, Lexical.isGap c = false) :
    k.skipGap = k := by
  unfold skipGap
  cases hrest : k.rest with
  | nil => rfl
  | cons c cs =>
    rw [hrest] at h
    rw [List.takeWhile_cons_of_neg (by rw [h c rfl]; decide)]
    rfl

theorem skipTrivia_of_startsLexeme {k : Cursor} (h : StartsLexeme k.rest) : k.skipTrivia = k := by
  rw [skipTrivia.eq_def, skipGap_of_head fun c hc => (h c hc).1, if_neg]
  exact fun hcomment => (h '#' (Lexical.classify_comment_iff.mp hcomment)).2 rfl

/-- Skipping one character of a gap does not change where the gap ends. -/
theorem skipGap_skip {k : Cursor} {c : Char} {rest : List Char} (hrest : k.rest = c :: rest)
    (hc : Lexical.isGap c) : (k.skip c).skipGap = k.skipGap := by
  rw [skipGap, skipGap, rest_skip, hrest, List.takeWhile_cons_of_pos hc]
  rfl

/-- Neither does it change where the next lexeme is. -/
theorem skipTrivia_skip {k : Cursor} {c : Char} {rest : List Char} (hrest : k.rest = c :: rest)
    (hc : Lexical.isGap c) : (k.skip c).skipTrivia = k.skipTrivia := by
  rw [skipTrivia.eq_def (k.skip c), skipTrivia.eq_def k, skipGap_skip hrest hc]

/-- Nor does going past a comment. -/
theorem skipTrivia_comment {k : Cursor} {body rest : List Char}
    (hrest : k.rest = '#' :: (body ++ rest)) (hbody : ∀ c ∈ body, Text.isLineBreak c = false)
    (hend : ∀ c ∈ rest.head?, Text.isLineBreak c) :
    (k.consume ('#' :: body)).skipTrivia = k.skipTrivia := by
  have hskip : k.skipGap = k := by
    refine skipGap_of_head ?_
    rw [hrest]
    rintro c ⟨⟩
    rfl
  have hcomment : Scanner.ofCursor k = ⟨k.consume ('#' :: body), .comment, k.position,
      '#' :: body⟩ := by
    have hclassify : Lexical.classify k.rest = (.comment, '#' :: body) := by
      rw [hrest]
      exact congrArg (fun line => (Lexeme.comment, '#' :: line)) (Gap.takeWhile_line hbody hend)
    rw [Scanner.ofCursor, hclassify]
  rw [skipTrivia.eq_def k, hskip, hcomment, if_pos rfl]

/-! ## Ignorable characters -/

theorem skip_ignorable {k : Cursor} {c : Char} (h : Lexical.isIgnorable c) :
    k.skip c = k.step c := by
  unfold skip
  rw [if_neg]
  rintro ⟨rfl, -⟩
  exact absurd h (by decide)

theorem isGap_of_isIgnorable {c : Char} (h : Lexical.isIgnorable c) : Lexical.isGap c := by
  rw [Lexical.isGap, h, Bool.true_or]

/-- Consuming ignorable characters does not change where the next lexeme is. -/
theorem skipTrivia_consume {k : Cursor} {ignored rest : List Char}
    (hrest : k.rest = ignored ++ rest) (h : ∀ c ∈ ignored, Lexical.isIgnorable c) :
    (k.consume ignored).skipTrivia = k.skipTrivia := by
  induction ignored generalizing k with
  | nil => rfl
  | cons c cs ih =>
    obtain ⟨hc, hcs⟩ := List.forall_mem_cons.mp h
    rw [consume_cons, ih (by rw [rest_step, hrest]; rfl) hcs, ← skip_ignorable hc]
    exact skipTrivia_skip hrest (isGap_of_isIgnorable hc)

/-- In front of ignorable characters and a lexeme, those characters are skipped. -/
theorem skipTrivia_eq_consume {k : Cursor} {ignored rest : List Char}
    (hrest : k.rest = ignored ++ rest) (h : ∀ c ∈ ignored, Lexical.isIgnorable c)
    (hstarts : StartsLexeme rest) : k.skipTrivia = k.consume ignored := by
  rw [← skipTrivia_consume hrest h]
  apply skipTrivia_of_startsLexeme
  rwa [rest_consume_of_append hrest]

end Cursor

end GraphQLSyntax
