import GraphQLSyntax.Proofs.Grammar.Step
import GraphQLSyntax.Proofs.Lexical.Bracketed

/-!
# Brackets and marks in a text

Only ignorable characters stand among the brackets and marks of a type, so these are read off the
text without looking for lexemes.

* `Laid.of_marks`: the brackets and marks that a text starts with are pieces.
* `Laid.rest_of_marks`: pieces that are brackets and marks are how a text starts.
* `Reader.openings_eq_ok`, `Reader.closings_eq_ok`: reading the brackets before and behind a name.
-/

namespace GraphQLSyntax

/-- A bracket or a mark of a type. -/
def IsMark (c : Char) : Prop := c = '[' ∨ c = ']' ∨ c = '!'

namespace Cursor

variable {k : Cursor} {c : Char} {ignored rest : List Char}

/-- A mark behind ignorable characters is the next lexeme. -/
theorem laidAt_mark (hrest : k.rest = ignored ++ c :: rest)
    (hignored : ∀ d ∈ ignored, Lexical.isIgnorable d) (hc : IsMark c) :
    (Terminal.mark c).LaidAt k ∧ k.behind (.mark c) = k.consume (ignored ++ [c]) :=
  Terminal.Stands.laidAt (t := .mark c) hc hrest hignored

/-- White space behind the last bracket is skipped, whether it was taken or not. -/
theorem skipTrivia_consume_trimmed {taken : List Char} (hrest : k.rest = taken ++ rest) :
    (k.consume taken).skipTrivia = (k.consume (Lexical.trimmed taken)).skipTrivia := by
  obtain ⟨ignored, heq, hignored⟩ := Lexical.trimmed_append taken
  have hrest' : k.rest = Lexical.trimmed taken ++ (ignored ++ rest) := by
    rw [← List.append_assoc, ← heq, hrest]
  rw [← skipTrivia_consume (rest_consume_of_append hrest') hignored, ← consume_append, ← heq]

end Cursor

/-- Only ignorable characters stand before a mark. -/
theorem Terminal.LaidAt.rest_mark {k : Cursor} {c : Char} (h : (Terminal.mark c).LaidAt k) :
    ∃ ignored, (∀ d ∈ ignored, Lexical.isIgnorable d) ∧
      k.rest = ignored ++ c :: (k.behind (.mark c)).rest := by
  obtain ⟨gap, hrest, -, hignored, -⟩ := h.gap
  exact ⟨gap, hignored rfl, hrest⟩

namespace Laid

variable {k k' : Cursor} {taken rest : List Char} {pieces : List Piece}

/-- The brackets and marks among ignorable characters are pieces. -/
theorem of_marks (hrest : k.rest = taken ++ rest)
    (htaken : ∀ c ∈ taken, Lexical.isIgnorable c ∨ IsMark c) :
    ∃ pieces, Laid k pieces (k.consume (Lexical.trimmed taken)) ∧
      pieces.map (·.terminal) = (Lexical.marks taken).map .mark := by
  -- The ignorable characters before the next mark are put aside until it is reached.
  have haside : ∀ (taken ignored : List Char) (k : Cursor), k.rest = ignored ++ (taken ++ rest) →
      (∀ c ∈ ignored, Lexical.isIgnorable c) → (∀ c ∈ taken, Lexical.isIgnorable c ∨ IsMark c) →
      ∃ pieces, Laid k pieces (k.consume (Lexical.trimmed (ignored ++ taken))) ∧
        pieces.map (·.terminal) = (Lexical.marks taken).map .mark := by
    intro taken
    induction taken with
    | nil =>
      intro ignored k hrest hignored _
      refine ⟨[], ?_, rfl⟩
      rw [List.append_nil, Lexical.trimmed_eq_nil hignored]
      rfl
    | cons c cs ih =>
      intro ignored k hrest hignored htaken
      have htaken' : ∀ d ∈ cs, Lexical.isIgnorable d ∨ IsMark d :=
        fun d hd => htaken d (by simp [hd])
      rcases htaken c (by simp) with hc | hc
      · obtain ⟨pieces, hlaid, hpieces⟩ := ih (ignored ++ [c]) k (by simpa using hrest)
          (by
            intro d hd
            rcases List.mem_append.mp hd with hd | hd
            · exact hignored d hd
            · rwa [List.mem_singleton.mp hd]) htaken'
        rw [List.append_assoc, List.singleton_append] at hlaid
        refine ⟨pieces, hlaid, ?_⟩
        rw [hpieces, Lexical.marks, Lexical.marks, List.filter_cons_of_neg (by simp [hc])]
      · rw [List.cons_append] at hrest
        obtain ⟨hat, hbehind⟩ := Cursor.laidAt_mark hrest hignored hc
        obtain ⟨pieces, hlaid, hpieces⟩ := ih [] (k.behind (.mark c)) (by
          rw [hbehind, Cursor.consume_append, Cursor.rest_consume,
            Cursor.rest_consume_of_append hrest]
          rfl) (by simp) htaken'
        refine ⟨⟨.mark c, k.spanOf (.mark c)⟩ :: pieces, ⟨hat, rfl, ?_⟩, ?_⟩
        · rw [Lexical.trimmed_append_cons (Lexical.isIgnorable_mark hc)]
          rw [hbehind, List.nil_append, ← Cursor.consume_append, List.append_assoc,
            List.singleton_append] at hlaid
          rwa [hbehind]
        · rw [List.map_cons, hpieces, Lexical.marks, Lexical.marks,
            List.filter_cons_of_pos (by simp [Lexical.isIgnorable_mark hc]), List.map_cons]
  exact haside taken [] k hrest (by simp) htaken

/-- Pieces that are brackets and marks stand among nothing but ignorable characters. -/
theorem rest_of_marks {marks : List Char} (h : Laid k pieces k')
    (hpieces : pieces.map (·.terminal) = marks.map .mark) :
    ∃ taken, k.rest = taken ++ k'.rest ∧ Lexical.marks taken = marks ∧ k' = k.consume taken ∧
      Lexical.trimmed taken = taken := by
  induction pieces generalizing k marks with
  | nil =>
    cases h
    obtain rfl := List.map_eq_nil_iff.mp hpieces.symm
    exact ⟨[], rfl, rfl, rfl, rfl⟩
  | cons p ps ih =>
    obtain ⟨hp, -, h⟩ := h
    obtain ⟨c, cs, rfl, hc, hcs⟩ := List.map_eq_cons_iff.mp hpieces.symm
    have hc : p.terminal = .mark c := hc.symm
    rw [hc] at hp h
    obtain ⟨taken, hrest, hmarks, rfl, htrimmed⟩ := ih h hcs.symm
    have hmark : IsMark c := hp.stands
    obtain ⟨ignored, hignored, hrest'⟩ := hp.rest_mark
    have hbehind := (Cursor.laidAt_mark hrest' hignored hmark).2
    have hnot := Lexical.isIgnorable_mark hmark
    refine ⟨ignored ++ c :: taken, ?_, ?_, ?_, ?_⟩
    · rw [List.append_assoc, List.cons_append, ← hrest]
      exact hrest'
    · rw [Lexical.marks_append, Lexical.marks_eq_nil hignored, List.nil_append, Lexical.marks,
        List.filter_cons_of_pos (by simp [hnot]), ← Lexical.marks, hmarks]
    · rw [hbehind, ← Cursor.consume_append, List.append_assoc, List.singleton_append]
    · rw [Lexical.trimmed_append_cons hnot, htrimmed]

end Laid

/-- Ignorable characters stand at a cursor, up to something else. Where that is a mark, it is the
next lexeme. -/
theorem Cursor.exists_ignorable (k : Cursor) : ∃ ignored, (∀ c ∈ ignored, Lexical.isIgnorable c) ∧
    k.rest = ignored ++ (k.consume ignored).rest ∧
    (k.consume ignored).skipTrivia = k.skipTrivia ∧
    ∀ c ∈ (k.consume ignored).rest.head?, Lexical.isIgnorable c = false ∧
      (IsMark c → k.ahead = (Terminal.mark c).ahead) := by
  have hignored : ∀ c ∈ k.rest.takeWhile Lexical.isIgnorable, Lexical.isIgnorable c :=
    fun c hc => List.mem_takeWhile_imp hc
  have hsplit := (List.takeWhile_append_dropWhile (p := Lexical.isIgnorable) (l := k.rest)).symm
  have hrest := rest_consume_of_append hsplit
  refine ⟨_, hignored, ?_, skipTrivia_consume hsplit hignored, fun c hc => ⟨?_, fun hmark => ?_⟩⟩
  · rw [hrest]
    exact hsplit
  · rw [hrest] at hc
    have hnot := List.head?_dropWhile_not Lexical.isIgnorable k.rest
    rw [Option.mem_def.mp hc] at hnot
    exact hnot
  · rw [hrest] at hc
    obtain ⟨rest, hrest'⟩ := List.head?_eq_some_iff.mp hc
    rw [hrest'] at hsplit
    exact (laidAt_mark hsplit hignored hmark).1.ahead

/-! ## Readers of brackets -/

namespace Reader

variable {k : Cursor} {r r' : Reading} {lists : Nat}

theorem openings_eq_ok (h : k.ahead = .squareOpen) {first : Cursor} {taken : List Char}
    (hfirst : first = k.behind (.lexeme .squareOpen (String.singleton '[')))
    (htaken : taken = Lexical.openings first.rest) :
    openings (.ofCursor k) = .ok (lists, r') ↔ lists = countedLists (taken.count '[' + 1) ∧
      lists < maxLists ∧ (first.consume taken).ahead ≠ .unknown ∧
      r' = .ofCursor (first.consume taken) := by
  have hlaid := k.laidAt_word h rfl
  unfold openings
  rw [lexeme_bind, Reading.lexeme_ofCursor, if_pos h, cursor_bind, hlaid.cursor_eq, ← hfirst,
    ← htaken]
  split
  · rename_i hdeep
    refine iff_of_false (by rintro ⟨⟩) ?_
    rintro ⟨rfl, hlt, -⟩
    exact Nat.not_le_of_lt hlt hdeep
  · rename_i hdeep
    rw [bind_eq_ok]
    constructor
    · rintro ⟨_, r₁, ⟨⟩, hr⟩
      obtain ⟨u, r₂, hadvance, hpure⟩ := bind_eq_ok.mp hr
      obtain ⟨hahead, rfl⟩ := advance_eq_ok.mp hadvance
      dsimp only at hahead hpure
      rw [hlaid.cursor_eq, ← hfirst] at hahead hpure
      cases hpure
      exact ⟨rfl, Nat.lt_of_not_le hdeep, hahead, rfl⟩
    · rintro ⟨rfl, -, hahead, rfl⟩
      refine ⟨(), _, rfl, bind_eq_ok.mpr ⟨(), _, advance_eq_ok.mpr ⟨?_, rfl⟩, ?_⟩⟩
      · dsimp only
        rwa [hlaid.cursor_eq, ← hfirst]
      · dsimp only
        rw [hlaid.cursor_eq, ← hfirst]
        rfl

theorem closings_eq_ok (hk : r.scanner.cursor = k) {opener : Span} {wrapping : Wrapping}
    {taken : List Char} (htaken : taken = Lexical.closings lists k.rest) :
    closings lists opener r = .ok (wrapping, r') ↔
      (k.consume taken).rest.head? ≠ some ']' ∧ taken.count ']' = lists ∧
      (k.consume taken).ahead ≠ .unknown ∧ wrapping = .ofClosings taken ∧
      r' = .ofCursor (k.consume (Lexical.trimmed taken)) := by
  have hcount : taken.count ']' ≤ lists := htaken ▸ Lexical.count_closings_le lists k.rest
  have hrest : k.rest = taken ++ (k.consume taken).rest := by
    rw [Cursor.rest_consume, htaken,
      List.prefix_iff_eq_append.mp (Lexical.closings_isPrefix lists k.rest)]
  have hskip := Cursor.skipTrivia_consume_trimmed hrest
  unfold closings
  rw [cursor_bind, hk, ← htaken, bind_eq_ok]
  constructor
  · rintro ⟨_, r₁, ⟨⟩, hr⟩
    rw [cursor_bind] at hr
    dsimp only at hr
    rw [hk] at hr
    split at hr
    · cases hr
    · rename_i hclosed
      split at hr
      · cases hr
      · rename_i hopen
        obtain ⟨u, r₂, hadvance, hpure⟩ := bind_eq_ok.mp hr
        obtain ⟨hahead, rfl⟩ := advanceAfter_eq_ok.mp hadvance
        cases hpure
        refine ⟨hclosed, by omega, hahead, rfl, ?_⟩
        rw [Reading.ofCursor, ← hskip]
  · rintro ⟨hclosed, hcount, hahead, rfl, rfl⟩
    refine ⟨(), _, rfl, ?_⟩
    rw [cursor_bind]
    dsimp only
    rw [hk, if_neg hclosed, if_neg (by omega)]
    refine bind_eq_ok.mpr ⟨(), _, advanceAfter_eq_ok.mpr ⟨hahead, rfl⟩, ?_⟩
    rw [Reading.ofCursor, ← hskip]
    rfl

end Reader

end GraphQLSyntax
