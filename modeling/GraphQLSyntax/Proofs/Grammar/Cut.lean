import GraphQLSyntax.Proofs.Grammar.Moved
import GraphQLSyntax.Proofs.Lexical.Lookahead
import GraphQLSyntax.Proofs.Scan.Trail

/-!
# Parts of a text that is cut off

A text may be cut off behind any piece in it, and a gap or a closing brace be put there. A terminal
is told from the next character at most, and none goes on with one of these.

* `IsCut`: what may be put there.
* `Terminal.Stands.cut`: a terminal is read as what it is in front of a text that is cut off.
* `Laid.cut`: pieces stand in a text that is cut off behind them.
* `Laid.keep`: they stay at their places if nothing but what follows them is another text.
* `Laid.skipTrivia`: what stands before the first of them may be left out.
-/

namespace GraphQLSyntax

/-- A text is at its end, or goes on with what may stand between lexemes or with a closing brace. No
lexeme but a comment reaches into it. -/
def IsCut (tail : List Char) : Prop := ∀ c ∈ tail.head?, c ∈ Lexical.apart

variable {t : Terminal} {k k' m : Cursor} {cs rest tail : List Char} {p : Piece}
  {pieces : List Piece}

theorem Gap.isCut {gap : List Char} (h : Gap gap rest) : IsCut gap := by
  cases h with
  | nil => simp [IsCut]
  | ignorable hc _ =>
    rintro d ⟨⟩
    exact Lexical.mem_apart_of_isGap hc
  | comment => simp [IsCut, Lexical.apart]

theorem IsCut.append (h : IsCut tail) (hne : tail ≠ []) (rest : List Char) :
    IsCut (tail ++ rest) := by
  unfold IsCut
  rwa [List.head?_append_of_ne_nil _ hne]

/-! ## Terminals -/

/-- A terminal in front of a text is read as what it is where that text is cut off. -/
theorem Terminal.Stands.cut (h : t.Stands (cs ++ rest)) (htail : IsCut tail) :
    t.Stands (cs ++ tail) := by
  have hends (kind : Lexeme) (hkind : kind.isControl = false) (hcomment : kind ≠ .comment) :
      Lexical.EndsAlike kind (cs ++ rest) (cs ++ tail) :=
    (Lexical.EndsAlike.cut hkind hcomment htail).behind cs
  cases t with
  | lexeme kind text =>
    obtain ⟨hclassify, hkind, hcomment⟩ := h
    exact ⟨Lexical.local_classify _ _ _ _ hclassify (hends kind hkind hcomment), hkind, hcomment⟩
  | sigilName sigil name =>
    obtain ⟨hsigil, hclassify⟩ := h
    exact ⟨hsigil, Lexical.local_classify _ _ _ _ hclassify (hends .name rfl (by decide))⟩
  | spread =>
    have hdot := (hends .period rfl (by decide)).head (.char '.' (by decide) (by decide))
      fun c hc => beq_eq_false_iff_ne.mpr fun heq => h (heq ▸ hc)
    exact fun hc => absurd (hdot '.' hc) (by decide)
  | object text =>
    obtain ⟨body, htext, hbraced⟩ := h
    exact ⟨body, htext, Lexical.local_braced 0 _ _ _ _ hbraced (hends .object rfl (by decide))⟩
  | mark c => exact h

/-- A terminal behind a gap is the next lexeme. -/
theorem Terminal.Stands.laidAt_gap {gap : List Char} (h : t.Stands rest)
    (hrest : k.rest = gap ++ (t.chars ++ rest)) (hgap : Gap gap (t.chars ++ rest))
    (hmark : t.isMark → ∀ c ∈ gap, Lexical.isIgnorable c) :
    t.LaidAt k ∧ (k.behind t).rest = rest := by
  have hskip := Cursor.rest_skipTrivia_of_gap hrest hgap h.startsLexeme
  have hend : (k.behind t).rest = rest := Cursor.rest_consume_of_append hskip
  refine ⟨⟨by rw [hend, hskip], by rwa [hend], fun ht => ?_⟩, hend⟩
  exact (h.laidAt hrest (hmark ht)).1.close ht

/-- A terminal at a cursor is the next lexeme. -/
theorem Terminal.Stands.laidAt_start (h : t.Stands rest) (hrest : k.rest = t.chars ++ rest) :
    t.LaidAt k ∧ (k.behind t).rest = rest := by
  have hgap : k.rest = [] ++ (t.chars ++ rest) := hrest
  exact h.laidAt_gap hgap (.nil _) (by simp)

/-- A terminal stands in front of a text that is cut off, behind the same gap. -/
theorem Terminal.LaidAt.cut {more : List Char} (h : t.LaidAt k)
    (hmore : (k.behind t).rest = more ++ rest) (hrest : k.rest = cs ++ rest) (htail : IsCut tail) :
    ∃ gap, cs = gap ++ (t.chars ++ more) ∧ GapText gap ∧
      (t.isMark → ∀ c ∈ gap, Lexical.isIgnorable c) ∧ t.Stands (more ++ tail) := by
  obtain ⟨gap, hgapped, hgap, hmark, -⟩ := h.gap
  have hstands := h.stands
  refine ⟨gap, ?_, ?_, hmark, ?_⟩
  · rw [hrest, hmore] at hgapped
    simpa [← List.append_assoc] using hgapped
  · exact .of_gap hgap hstands.startsLexeme
      (List.append_ne_nil_of_left_ne_nil hstands.chars_ne_nil _)
  · rw [hmore] at hstands
    exact hstands.cut htail

/-! ## Pieces -/

namespace Laid

/-- Pieces stand in a text that is cut off behind them. -/
theorem cut (h : Laid k pieces k') (hrest : k.rest = cs ++ k'.rest) (hm : m.rest = cs ++ tail)
    (htail : IsCut tail) : ∃ pieces' m', Laid m pieces' m' ∧
      pieces'.map (Piece.map .forget) = pieces.map (Piece.map .forget) ∧ m'.rest = tail := by
  induction pieces generalizing k m cs with
  | nil =>
    cases h
    obtain rfl : cs = [] := by simpa using hrest
    exact ⟨[], m, rfl, rfl, hm⟩
  | cons p ps ih =>
    obtain ⟨hp, -, h⟩ := h
    obtain ⟨more, hmore, -, -⟩ := h.spaced
    obtain ⟨gap, rfl, hgap, hmark, hstands⟩ := hp.cut hmore hrest htail
    rw [List.append_assoc, List.append_assoc] at hm
    obtain ⟨hat, hbehind⟩ := hstands.laidAt_gap hm (hgap.before _) hmark
    obtain ⟨pieces', m', hlaid, hpieces, hend⟩ := ih h hmore hbehind
    refine ⟨⟨p.terminal, m.spanOf p.terminal⟩ :: pieces', m', ⟨hat, rfl, hlaid⟩, ?_, hend⟩
    rw [List.map_cons, List.map_cons, hpieces]
    rfl

/-- Where only what follows them is another text, pieces stay at their places. -/
theorem keep (h : Laid k pieces k') (hrest : k.rest = cs ++ k'.rest) (htail : IsCut tail) :
    Laid { k with rest := cs ++ tail } pieces { k' with rest := tail } := by
  induction pieces generalizing k cs with
  | nil =>
    cases h
    obtain rfl : cs = [] := by simpa using hrest
    rfl
  | cons p ps ih =>
    obtain ⟨hp, hspan, h⟩ := h
    obtain ⟨more, hmore, -, -⟩ := h.spaced
    obtain ⟨gap, rfl, hgap, hmark, hstands⟩ := hp.cut hmore hrest htail
    rw [List.append_assoc, List.append_assoc]
    have hskip : { k with rest := gap ++ (p.terminal.chars ++ (more ++ tail)) }.skipTrivia =
        { k.skipTrivia with rest := p.terminal.chars ++ (more ++ tail) } :=
      Cursor.skipTrivia_rest hgap (by rw [hrest, hmore]; simp only [List.append_assoc])
        hp.stands.startsLexeme hstands.startsLexeme
    have hbehind : { k with rest := gap ++ (p.terminal.chars ++ (more ++ tail)) }.behind
        p.terminal = { k.behind p.terminal with rest := more ++ tail } := by
      rw [Cursor.behind, hskip, Cursor.consume, Cursor.foldl_rest Cursor.step_rest, List.drop_left]
      rfl
    refine ⟨(hstands.laidAt_gap rfl (hgap.before _) hmark).1, ?_, ?_⟩
    · rw [hspan, Cursor.spanOf, Cursor.spanOf, hskip, hbehind]
    · rw [hbehind]
      exact ih h hmore

/-- What stands before the first lexeme may be left out. -/
theorem skipTrivia (h : Laid k (p :: pieces) k') : Laid k.skipTrivia (p :: pieces) k' := by
  have hskip : k.skipTrivia.skipTrivia = k.skipTrivia := by
    obtain ⟨-, -, -, hstarts, -⟩ := k.gap_skipTrivia
    exact Cursor.skipTrivia_of_startsLexeme hstarts
  obtain ⟨hp, hspan, h⟩ := h
  refine ⟨(hp.stands.laidAt_start hp.rest_eq).1, ?_, ?_⟩
  · rw [hspan, Cursor.spanOf, Cursor.spanOf, Cursor.behind, Cursor.behind, hskip]
  · rwa [Cursor.behind, hskip]

end Laid

end GraphQLSyntax
