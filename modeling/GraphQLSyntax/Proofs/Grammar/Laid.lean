import Mathlib.Data.List.Basic
import GraphQLSyntax.Proofs.Scan.Trivia
import GraphQLSyntax.Proofs.Grammar.Spelling

/-!
# Pieces in a text

* `Terminal.Stands`: a terminal is read as what it is, whatever follows.
* `Laid`: pieces stand in a text one behind the other, between two cursors.
* `Spaced`: terminals make up a text, with gaps before each of them.
* `Laid.spaced`: pieces that stand in a text are spaced in it.
* `Laid.covers`: they cover what lies between the first and the last of them.
* `Laid.last`: the last of them ends where they all do.
-/

namespace GraphQLSyntax

/-! ## Terminals in front of a text -/

namespace Terminal

/-- A terminal in front of `rest` is read up to where it ends. -/
def Stands (rest : List Char) : Terminal → Prop
  | lexeme kind text => Lexical.classify (text.toList ++ rest) = (kind, text.toList) ∧
    kind.isControl = false ∧ kind ≠ .comment
  | sigilName sigil name => (sigil = '$' ∨ sigil = '@') ∧
    Lexical.classify (name.toList ++ rest) = (.name, name.toList)
  | spread => rest.head? ≠ some '.'
  | object text => ∃ body, text.toList = '{' :: body ∧
    Lexical.braced 0 (body ++ rest) = (.object, body)
  | mark c => c = '[' ∨ c = ']' ∨ c = '!'

/-- The kind of the lexeme that a terminal starts with. No lexeme starts with an exclamation
mark. -/
def ahead : Terminal → Lexeme
  | lexeme kind _ => kind
  | sigilName sigil _ => if sigil = '$' then .dollar else .atSign
  | spread => .period
  | object _ => .curlyOpen
  | mark c => if c = '[' then .squareOpen else if c = ']' then .squareClose else .unknown

end Terminal

namespace Terminal.Stands

variable {t : Terminal} {rest : List Char}

theorem fst_classify (h : t.Stands rest) : (Lexical.classify (t.chars ++ rest)).1 = t.ahead := by
  cases t with
  | lexeme kind text => exact congrArg Prod.fst h.1
  | sigilName sigil name => rcases h.1 with rfl | rfl <;> rfl
  | spread => rfl
  | object text =>
    obtain ⟨body, htext, -⟩ := h
    rw [chars, htext]
    rfl
  | mark c => rcases h with rfl | rfl | rfl <;> rfl

theorem chars_ne_nil (h : t.Stands rest) : t.chars ≠ [] := by
  cases t with
  | lexeme kind text =>
    obtain ⟨hclassify, hcontrol, -⟩ := h
    intro hnil
    rw [chars] at hnil
    have hne := @Lexical.classify_ne_nil (text.toList ++ rest)
    rw [hclassify] at hne
    refine hne ?_ ?_ hnil <;> rintro rfl <;> cases hcontrol
  | sigilName sigil name => exact List.cons_ne_nil _ _
  | spread => exact List.cons_ne_nil _ _
  | object text =>
    obtain ⟨body, htext, -⟩ := h
    rw [chars, htext]
    exact List.cons_ne_nil _ _
  | mark c => exact List.cons_ne_nil _ _

end Terminal.Stands

/-- A terminal of one character is read as what it is, whatever follows. -/
theorem Terminal.stands_single {kind : Lexeme} {c : Char} (h : Lexical.single? c = some kind)
    (rest : List Char) : (lexeme kind (String.singleton c)).Stands rest := by
  obtain ⟨hcomment, -, hcontrol⟩ := Lexical.single?_kind h
  refine ⟨?_, hcontrol, hcomment⟩
  rw [String.toList_singleton]
  exact Lexical.classify_single h rest

/-- A terminal is told from what stands between lexemes by its first character. -/
theorem Terminal.Stands.startsLexeme {t : Terminal} {rest : List Char} (h : t.Stands rest) :
    StartsLexeme (t.chars ++ rest) := by
  cases t with
  | lexeme kind text =>
    obtain ⟨hclassify, hcontrol, hcomment⟩ := h
    exact startsLexeme_of_classify (by rw [chars, hclassify]; rintro rfl; cases hcontrol)
      (by rwa [chars, hclassify])
  | sigilName sigil name =>
    rintro c ⟨⟩
    rcases h.1 with rfl | rfl <;> decide
  | spread =>
    rintro c ⟨⟩
    decide
  | object text =>
    obtain ⟨body, htext, -⟩ := h
    rw [chars, htext]
    rintro c ⟨⟩
    decide
  | mark c =>
    rintro d ⟨⟩
    rcases h with rfl | rfl | rfl <;> decide

/-! ## Pieces at a cursor -/

namespace Cursor

/-- The cursor behind a terminal that stands at the next lexeme. -/
def behind (k : Cursor) (t : Terminal) : Cursor := k.skipTrivia.consume t.chars

/-- The span of a terminal that stands at the next lexeme. -/
def spanOf (k : Cursor) (t : Terminal) : Span := ⟨k.skipTrivia.position, (k.behind t).position⟩

/-- The kind of the next lexeme. -/
def ahead (k : Cursor) : Lexeme := (Scanner.ofCursor k.skipTrivia).lexeme

end Cursor

/-- A terminal stands at the next lexeme. Only ignorable characters stand before a bracket or a mark
of a type. -/
structure Terminal.LaidAt (t : Terminal) (k : Cursor) : Prop where
  rest_eq : k.skipTrivia.rest = t.chars ++ (k.behind t).rest
  stands : t.Stands (k.behind t).rest
  close : t.isMark → k.skipTrivia.rest = k.rest.dropWhile Lexical.isIgnorable

/-- Pieces stand one behind the other, from the cursor `k` on. The last ends at `k'`. -/
def Laid : (k : Cursor) → (pieces : List Piece) → (k' : Cursor) → Prop
  | k, [], k' => k' = k
  | k, p :: ps, k' =>
    p.terminal.LaidAt k ∧ p.span = k.spanOf p.terminal ∧ Laid (k.behind p.terminal) ps k'

/-- A terminal behind ignorable characters is the next lexeme. -/
theorem Terminal.Stands.laidAt {t : Terminal} {k : Cursor} {ignored rest : List Char}
    (h : t.Stands rest) (hrest : k.rest = ignored ++ (t.chars ++ rest))
    (hignored : ∀ c ∈ ignored, Lexical.isIgnorable c) :
    t.LaidAt k ∧ k.behind t = k.consume (ignored ++ t.chars) := by
  have hskip := Cursor.skipTrivia_eq_consume hrest hignored h.startsLexeme
  have hrest' : (k.consume ignored).rest = t.chars ++ rest := Cursor.rest_consume_of_append hrest
  have hbehind : k.behind t = k.consume (ignored ++ t.chars) := by
    rw [Cursor.behind, hskip, Cursor.consume_append]
  have hend : (k.behind t).rest = rest := by
    rw [Cursor.behind, hskip, Cursor.rest_consume_of_append hrest']
  refine ⟨⟨?_, by rwa [hend], fun _ => ?_⟩, hbehind⟩
  · rw [hend, hskip, hrest']
  · obtain ⟨c, cs, hchars⟩ := List.exists_cons_of_ne_nil h.chars_ne_nil
    have hc : Lexical.isIgnorable c = false := by
      have hgap := (h.startsLexeme c (by rw [hchars]; rfl)).1
      rw [Lexical.isGap, Bool.or_eq_false_iff] at hgap
      exact hgap.1
    rw [hskip, hrest', hrest, List.dropWhile_append_of_pos hignored, hchars, List.cons_append,
      List.dropWhile_cons_of_neg (by rw [hc]; decide)]

theorem Terminal.LaidAt.ahead {t : Terminal} {k : Cursor} (h : t.LaidAt k) : k.ahead = t.ahead := by
  rw [Cursor.ahead, Scanner.ofCursor, h.rest_eq, h.stands.fst_classify]

/-- A gap stands before a terminal, and nothing but ignorable characters before a mark. -/
theorem Terminal.LaidAt.gap {t : Terminal} {k : Cursor} (h : t.LaidAt k) :
    ∃ gap, k.rest = gap ++ (t.chars ++ (k.behind t).rest) ∧
      Gap gap (t.chars ++ (k.behind t).rest) ∧
      (t.isMark → ∀ c ∈ gap, Lexical.isIgnorable c) ∧
      k.skipTrivia.position.byteOffset = k.position.byteOffset + Text.byteLength gap := by
  obtain ⟨gap, hrest, hgap, -, hoffset⟩ := k.gap_skipTrivia
  refine ⟨gap, h.rest_eq ▸ hrest, h.rest_eq ▸ hgap, fun hmark c hc => ?_, hoffset⟩
  have hsplit : k.rest.takeWhile Lexical.isIgnorable ++ k.skipTrivia.rest =
      gap ++ k.skipTrivia.rest := by
    rw [h.close hmark, List.takeWhile_append_dropWhile, ← h.close hmark]
    exact hrest
  rw [← List.append_cancel_right hsplit] at hc
  exact List.mem_takeWhile_imp hc

/-- A cursor in front of a gap and nothing else is at the end. -/
theorem Cursor.ahead_of_gap {k : Cursor} (h : Gap k.rest []) : k.ahead = .eof := by
  have hrest : k.skipTrivia.rest = [] :=
    k.rest_skipTrivia_of_gap (List.append_nil k.rest).symm h (by simp [StartsLexeme])
  rw [ahead, Scanner.ofCursor, hrest]
  rfl

/-- A cursor at the end is in front of a gap and nothing else. -/
theorem Cursor.gap_of_ahead {k : Cursor} (h : k.ahead = .eof) : Gap k.rest [] := by
  obtain ⟨gap, hrest, hgap, -, -⟩ := k.gap_skipTrivia
  rw [Lexical.classify_eof_iff.mp h] at hrest hgap
  rwa [hrest, List.append_nil]

/-- The next lexeme is the same one, if a gap stands in front of it. -/
theorem Cursor.ahead_of_gap_append {k m : Cursor} {gap : List Char}
    (hm : m.rest = gap ++ k.skipTrivia.rest) (hgap : Gap gap k.skipTrivia.rest)
    (hstarts : StartsLexeme k.skipTrivia.rest) : m.ahead = k.ahead := by
  rw [ahead, ahead, Scanner.ofCursor, Scanner.ofCursor,
    m.rest_skipTrivia_of_gap hm hgap hstarts]

/-- A cursor with nothing but ignorable characters before it is at the end. -/
theorem Cursor.ahead_of_ignorable {k : Cursor} (h : ∀ c ∈ k.rest, Lexical.isIgnorable c) :
    k.ahead = .eof :=
  ahead_of_gap (.of_isGap (fun c hc => isGap_of_isIgnorable (h c hc)) [])

namespace Laid

variable {k k' k'' : Cursor} {p : Piece} {ps qs : List Piece} {text : String}

@[simp] theorem nil_iff : Laid k [] k' ↔ k' = k := Iff.rfl

theorem cons_iff : Laid k (p :: ps) k' ↔
    p.terminal.LaidAt k ∧ p.span = k.spanOf p.terminal ∧ Laid (k.behind p.terminal) ps k' :=
  Iff.rfl

theorem append_iff : Laid k (ps ++ qs) k'' ↔ ∃ k', Laid k ps k' ∧ Laid k' qs k'' := by
  induction ps generalizing k with
  | nil => simp
  | cons p ps ih =>
    rw [List.cons_append, cons_iff, ih]
    constructor
    · rintro ⟨hp, hspan, k', h, h'⟩
      exact ⟨k', ⟨hp, hspan, h⟩, h'⟩
    · rintro ⟨k', ⟨hp, hspan, h⟩, h'⟩
      exact ⟨hp, hspan, k', h, h'⟩

theorem append (h : Laid k ps k') (h' : Laid k' qs k'') : Laid k (ps ++ qs) k'' :=
  append_iff.mpr ⟨k', h, h'⟩

theorem single {t : Terminal} (h : t.LaidAt k) : Laid k [⟨t, k.spanOf t⟩] (k.behind t) :=
  ⟨h, rfl, rfl⟩

end Laid

/-! ## Terminals with gaps between them -/

theorem Gap.congr_head {gap rest rest' : List Char} (h : Gap gap rest)
    (hhead : rest'.head? = rest.head?) : Gap gap rest' := by
  induction h with
  | nil => exact .nil _
  | ignorable hc _ ih => exact .ignorable hc (ih hhead)
  | @comment body gap rest hbody hend _ ih =>
    refine .comment hbody ?_ (ih hhead)
    rw [List.head?_append] at hend ⊢
    rwa [hhead]

/-- Some terminals make up a text, each with a gap before it. -/
inductive Spaced : (terminals : List (List Char)) → (cs : List Char) → Prop where
  | nil : Spaced [] []
  | cons {gap t cs : List Char} {ts : List (List Char)} (hgap : Gap gap (t ++ cs))
    (h : Spaced ts cs) : Spaced (t :: ts) (gap ++ (t ++ cs))

namespace Laid

variable {k k' : Cursor} {p : Piece} {ps : List Piece} {text : String} {span : Span}

/-- What lies between the cursors is made of the pieces and the gaps before them. -/
theorem spaced (h : Laid k ps k') : ∃ cs, k.rest = cs ++ k'.rest ∧ Spaced (ps.map Piece.chars) cs ∧
    k'.position.byteOffset = k.position.byteOffset + Text.byteLength cs := by
  induction ps generalizing k with
  | nil =>
    cases h
    exact ⟨[], rfl, .nil, rfl⟩
  | cons p ps ih =>
    obtain ⟨hp, -, h⟩ := h
    obtain ⟨cs, hcs, hspaced, hoffset⟩ := ih h
    obtain ⟨gap, hrest, hgap, -, hskip⟩ := k.gap_skipTrivia
    have hbehind := hp.rest_eq
    rw [hcs] at hbehind
    refine ⟨gap ++ (p.chars ++ cs), ?_, .cons ?_ hspaced, ?_⟩
    · rw [hrest, hbehind, Piece.chars]
      simp only [List.append_assoc]
    · refine hgap.congr_head ?_
      rw [hbehind, Piece.chars, List.head?_append_of_ne_nil _ hp.stands.chars_ne_nil,
        List.head?_append_of_ne_nil _ hp.stands.chars_ne_nil]
    · rw [hoffset, Cursor.behind, Cursor.byteOffset_consume, hskip, Piece.chars,
        Text.byteLength_append, Text.byteLength_append]
      omega

/-- The first piece stands at the next lexeme, and the others follow it. -/
theorem spaced_tail (h : Laid k (p :: ps) k') : ∃ cs,
    k.skipTrivia.rest = p.chars ++ cs ++ k'.rest ∧ Spaced (ps.map Piece.chars) cs ∧
    k'.position.byteOffset =
      k.skipTrivia.position.byteOffset + Text.byteLength (p.chars ++ cs) := by
  obtain ⟨hp, -, h⟩ := h
  obtain ⟨cs, hcs, hspaced, hoffset⟩ := h.spaced
  refine ⟨cs, ?_, hspaced, ?_⟩
  · rw [hp.rest_eq, hcs, Piece.chars, List.append_assoc]
  · rw [hoffset, Cursor.behind, Cursor.byteOffset_consume, Piece.chars, Text.byteLength_append]
    omega

/-- The first piece starts before the last ends. -/
theorem start_le (h : Laid k (p :: ps) k') :
    p.span.start.byteOffset ≤ k'.position.byteOffset := by
  obtain ⟨cs, -, -, hoffset⟩ := h.spaced_tail
  rw [h.2.1, hoffset]
  exact Nat.le_add_right _ _

/-- The last piece ends where the others end. -/
theorem last (h : Laid k ps k') (hp : ps.getLast? = some p) : p.terminal.Stands k'.rest ∧
    ∃ cs, k.skipTrivia.rest = cs ++ (p.chars ++ k'.rest) := by
  induction ps generalizing k with
  | nil => cases hp
  | cons q qs ih =>
    obtain ⟨hq, -, h⟩ := h
    cases qs with
    | nil =>
      cases hp
      cases h
      exact ⟨hq.stands, [], hq.rest_eq⟩
    | cons q' qs =>
      obtain ⟨hstands, cs, hrest⟩ := ih h hp
      obtain ⟨gap, hgap, -⟩ := (k.behind q.terminal).gap_skipTrivia
      refine ⟨hstands, q.terminal.chars ++ (gap ++ cs), ?_⟩
      rw [hq.rest_eq, hgap, hrest]
      simp only [List.append_assoc]

theorem reaches (h : Laid k ps k') (hk : k.Reaches text) : k'.Reaches text := by
  obtain ⟨cs, hrest, -, hoffset⟩ := h.spaced
  exact hk.move cs hrest hoffset

/-- Pieces cover the text from the first lexeme to where the last of them ends. -/
theorem covers (h : Laid k ps k') (hne : ps ≠ []) :
    Covers ⟨k.skipTrivia.position, k'.position⟩ ps := by
  induction ps generalizing k with
  | nil => exact absurd rfl hne
  | cons p ps ih =>
    obtain ⟨-, hspan, h⟩ := h
    refine ⟨by rw [List.head?_cons, Option.map_some, hspan, Cursor.spanOf], ?_⟩
    cases ps with
    | nil =>
      cases h
      rw [List.getLast?_singleton, Option.map_some, hspan, Cursor.spanOf]
    | cons q qs =>
      rw [List.getLast?_cons_cons]
      exact (ih h (List.cons_ne_nil q qs)).2

/-- Only one span covers some pieces. -/
theorem span_eq (h : Laid k ps k') (hne : ps ≠ []) (hspan : Covers span ps) :
    span = ⟨k.skipTrivia.position, k'.position⟩ := by
  obtain ⟨hstart, hstop⟩ := h.covers hne
  obtain ⟨start, stop⟩ := span
  rw [hspan.1, Option.some.injEq] at hstart
  rw [hspan.2, Option.some.injEq] at hstop
  rw [Span.mk.injEq]
  exact ⟨hstart, hstop⟩

end Laid

theorem covers_single {p : Piece} {span : Span} : Covers span [p] ↔ p.span = span := by
  obtain ⟨start, stop⟩ := span
  obtain ⟨t, start', stop'⟩ := p
  rw [Covers, List.head?_cons, List.getLast?_singleton, Option.map_some, Option.map_some,
    Option.some.injEq, Option.some.injEq, Span.mk.injEq]

end GraphQLSyntax
