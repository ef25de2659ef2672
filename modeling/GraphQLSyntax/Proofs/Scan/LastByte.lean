import GraphQLSyntax.Proofs.Scan.Lines
import GraphQLSyntax.Proofs.Scan.Reached

/-!
# The last byte of a span

The accessors of a span read the place of the last covered byte off the position behind it. That
goes wrong where the last character ends a line.

* `Span.last`: the place that the accessors give. `Trail.lastByte`: the place that a scanner counts.
* `Trail.EndsLine`: a character ends a line.
* `Span.last_eq_lastByte_iff`: the two places are the same unless the last character ends a line.
* `Span.EndsWith`: the last character that a span covers is one that a trail goes past.
  `Span.LastTold`: the accessors tell where that ends.
-/

namespace GraphQLSyntax

/-- Where the last covered byte stands, as the accessors of a span tell it. -/
def Span.last (s : Span) : Position := ⟨s.endLine, s.endColumn, s.stop.byteOffset - 1⟩

theorem Span.last_eq {s : Span} (h : s.isEmpty = false) :
    s.last = ⟨s.stop.line, max (s.stop.column - 1) 1, s.stop.byteOffset - 1⟩ := by
  simp [last, endLine, endColumn, h]

namespace Trail

variable {t : Trail} {p : Passed}

/-- Where the last byte of a character behind a trail stands, as a scanner counts. The bytes of a
byte order mark that is skipped in the first column count no columns. -/
def lastByte (t : Trail) (p : Passed) : Position :=
  if p.isMark ∧ t.position.column = 1 then
    ⟨t.position.line, 1, t.position.byteOffset + (p.char.utf8Size - 1)⟩
  else t.position.shiftRight (p.char.utf8Size - 1)

/-- A character behind a trail ends a line. A line feed that completes a line end does not. -/
def EndsLine (t : Trail) (p : Passed) : Prop :=
  p.inLine = false ∧ ¬ (p.char = '\n' ∧ t.text.getLast? = some '\r')

theorem not_endsLine (h : p.inLine) : ¬ t.EndsLine p := by
  rintro ⟨hbreak, -⟩
  rw [h] at hbreak
  cases hbreak

theorem lastByte_of_not_mark (t : Trail) (h : p.isMark = false) :
    t.lastByte p = t.position.shiftRight (p.char.utf8Size - 1) :=
  if_neg (by rw [h]; rintro ⟨⟨⟩, -⟩)

theorem column_concat_break (t : Trail) (h : p.inLine = false) :
    (t ++ [p]).position.column = 1 := by
  rw [t.position_concat_break h]

/-- Behind a carriage return, the columns start anew. -/
theorem column_of_return (h : t.text.getLast? = some '\r') : t.position.column = 1 := by
  cases t using List.reverseRecOn with
  | nil => cases h
  | append_singleton t p =>
    rw [text_concat, List.getLast?_concat, Option.some.injEq] at h
    exact column_concat_break t (by rw [Passed.inLine, h]; rfl)

end Trail

/-- **The accessors of a span tell where its last byte stands**, unless that ends a line. -/
theorem Span.last_eq_lastByte_iff {s : Span} {t : Trail} {p : Passed} (h : s.isEmpty = false)
    (hstop : s.stop = (t ++ [p]).position) : s.last = t.lastByte p ↔ ¬ t.EndsLine p := by
  have hsize := p.char.utf8Size_pos
  have hcolumn := t.one_le_column
  rw [last_eq h, hstop, Trail.EndsLine]
  cases hp : p.inLine with
  | true =>
    refine iff_of_true ?_ (by simp)
    rw [t.position_concat_inLine hp, Trail.lastByte]
    split
    · rw [Nat.add_sub_assoc hsize]
      rfl
    · simp only [Position.shiftRight, Position.mk.injEq, true_and]
      omega
  | false =>
    have hchar : p.char = '\n' ∨ p.char = '\r' := by
      simpa [Passed.inLine, Text.isLineBreak, Classical.or_iff_not_imp_left] using hp
    have hmark : p.isMark = false := by
      rcases hchar with hchar | hchar <;> simp [Passed.isMark, hchar, Lexical.byteOrderMark]
    have hone : p.char.utf8Size = 1 := by
      rcases hchar with hchar | hchar <;> rw [hchar] <;> rfl
    rw [t.position_concat_break hp, t.lastByte_of_not_mark hmark, hone]
    -- The column is right only where nothing of the line stands before the character.
    by_cases hpair : p.char = '\n' ∧ t.text.getLast? = some '\r'
    · refine iff_of_true ?_ (fun hnot => hnot.2 hpair)
      rw [if_pos hpair]
      exact Position.ext rfl (Trail.column_of_return hpair.2).symm rfl
    · refine iff_of_false (fun heq => ?_) (fun hnot => hnot ⟨rfl, hpair⟩)
      rw [if_neg hpair] at heq
      have hline : t.position.line + 1 = t.position.line := congrArg Position.line heq
      omega

/-- A span of one character that is read in its line ends with its last byte. -/
theorem Span.last_of_char (t : Trail) (c : Char) :
    (⟨t.position, t.position.shiftRight c.utf8Size⟩ : Span).last = t.lastByte (.read c) := by
  have hsize := c.utf8Size_pos
  have hcolumn := t.one_le_column
  rw [last_eq (isEmpty_of_lt (Nat.lt_add_of_pos_right hsize)),
    t.lastByte_of_not_mark rfl, Passed.read]
  simp only [Position.shiftRight, Position.mk.injEq, true_and]
  omega

/-! ## Characters on a trail -/

namespace Trail

variable {t u : Trail} {p : Passed}

theorem byteOffset_concat (t : Trail) (p : Passed) :
    (t ++ [p]).position.byteOffset = t.position.byteOffset + p.char.utf8Size := by
  simp [position, text, Text.byteLength_append]

/-- Of two trails in one text, the shorter one is told by its length in bytes. -/
theorem text_eq_of_byteOffset {before : Trail} (hbefore : before <+: u)
    (ht : t.text <+: u.text) (h : before.position.byteOffset = t.position.byteOffset) :
    before.text = t.text := by
  obtain ⟨behind, rfl⟩ := hbefore
  obtain ⟨rest, hrest⟩ := ht
  rw [text_append] at hrest
  exact (Text.append_inj hrest h.symm).1.symm

/-- Behind the same text and at the same position, the same positions follow. -/
theorem position_append_congr (htext : t.text = u.text) (hposition : t.position = u.position)
    (v : Trail) : (t ++ v).position = (u ++ v).position := by
  have hcursor : (Cursor.ofText "").passAll t = (Cursor.ofText "").passAll u := by
    have hrest (w : Trail) : ((Cursor.ofText "").passAll w).rest = [] := by
      rw [Cursor.rest_passAll]
      exact List.drop_nil
    obtain ⟨ht, ht'⟩ := Cursor.position_passAll "" t
    obtain ⟨hu, hu'⟩ := Cursor.position_passAll "" u
    rw [Cursor.mk.injEq]
    refine ⟨(hrest t).trans (hrest u).symm, ?_, ?_⟩
    · rw [ht, hposition, hu]
    · rw [ht', htext, hu']
  rw [← (Cursor.position_passAll "" (t ++ v)).1, ← (Cursor.position_passAll "" (u ++ v)).1,
    Cursor.passAll_append, Cursor.passAll_append, hcursor]

end Trail

/-- The last character that a span covers is one that a trail goes past. -/
structure Span.EndsWith (u : Trail) (span : Span) (t : Trail) (p : Passed) : Prop where
  passed : t ++ [p] <+: u
  offset_eq : span.stop.byteOffset = t.position.byteOffset + p.char.utf8Size

theorem Span.EndsWith.of_concat {span : Span} {t u : Trail} {p : Passed} (hu : t ++ [p] <+: u)
    (hstop : span.stop = (t ++ [p]).position) : span.EndsWith u t p :=
  ⟨hu, by rw [hstop, Trail.byteOffset_concat]⟩

/-- There is only one such character. -/
theorem Span.EndsWith.unique {span : Span} {t t' u : Trail} {p p' : Passed}
    (h : span.EndsWith u t p) (h' : span.EndsWith u t' p') : t = t' ∧ p = p' := by
  have hsame := h.offset_eq.symm.trans h'.offset_eq
  rw [← Trail.byteOffset_concat, ← Trail.byteOffset_concat] at hsame
  have htext := Trail.text_eq_of_byteOffset h.passed
    (t := t' ++ [p']) (List.IsPrefix.map _ h'.passed) hsame
  have hlength : (t ++ [p]).length = (t' ++ [p']).length := by
    have := congrArg List.length htext
    rwa [Trail.text, Trail.text, List.length_map, List.length_map] at this
  have heq := List.IsPrefix.eq_of_length
    (List.prefix_of_prefix_length_le h.passed h'.passed hlength.le) hlength
  obtain ⟨rfl, hp⟩ := List.append_inj' heq rfl
  exact ⟨rfl, List.singleton_inj.mp hp⟩

/-- The accessors of a span tell where its last byte stands, as a trail counts. -/
def Span.LastTold (u : Trail) (span : Span) : Prop :=
  ∃ t p, span.EndsWith u t p ∧ span.last = t.lastByte p

theorem Span.LastTold.append {span : Span} {t : Trail} (h : span.LastTold t) (u : Trail) :
    span.LastTold (t ++ u) := by
  obtain ⟨before, p, hends, hlast⟩ := h
  exact ⟨before, p, ⟨hends.passed.trans (List.prefix_append t u), hends.offset_eq⟩, hlast⟩

/-! ## Spans over what is read -/

namespace Span.Over

variable {span : Span} {u : Trail} {cs : List Char}

/-- A span is empty where nothing is read. -/
theorem isEmpty_eq_false_iff (h : span.Over u cs) : span.isEmpty = false ↔ cs ≠ [] := by
  obtain ⟨before, -, rfl⟩ := h
  constructor
  · rintro hspan rfl
    rw [List.map_nil, List.append_nil] at hspan
    exact absurd (hspan.symm.trans (isEmpty_emptyAt before.position)) (by decide)
  · intro hne
    refine isEmpty_of_lt ?_
    rw [Trail.byteOffset_read]
    exact Nat.lt_add_of_pos_right (Text.byteLength_pos hne)

/-- The accessors of a span that ends with what is read tell where its last byte stands, unless that
ends a line. -/
theorem last_iff {whole : Span} (h : span.Over u cs) (hne : cs ≠ [])
    (hstop : whole.stop = span.stop) (hwhole : whole.isEmpty = false) : ∃ t p,
      whole.EndsWith u t p ∧ cs.getLast? = some p.char ∧ whole.stop = (t ++ [p]).position ∧
        (whole.last = t.lastByte p ↔ ¬ t.EndsLine p) := by
  obtain ⟨front, c, rfl⟩ := (List.eq_nil_or_concat' cs).resolve_left hne
  obtain ⟨before, hbefore, rfl⟩ := h
  rw [List.map_append, List.map_singleton, ← List.append_assoc] at hbefore hstop
  exact ⟨_, .read c, .of_concat hbefore hstop, List.getLast?_concat, hstop,
    last_eq_lastByte_iff hwhole hstop⟩

/-- What ends in line tells where it ends. -/
theorem lastTold {whole : Span} (h : span.Over u cs) (hne : cs ≠ [])
    (hstop : whole.stop = span.stop) (hwhole : whole.isEmpty = false)
    (hcs : ∀ c ∈ cs.getLast?, Text.inLine c) : whole.LastTold u := by
  obtain ⟨t, p, hends, hlast, -, hiff⟩ := h.last_iff hne hstop hwhole
  exact ⟨t, p, hends, hiff.mpr (Trail.not_endsLine (hcs _ hlast))⟩

end Span.Over

/-! ## Spans of failures -/

namespace Trail.Shows

variable {t u : Trail} {after : List Char} {found : String} {span : Span}

/-- Behind the same text and at the same position, a failure shows the same. -/
theorem congr (h : t.Shows after found span) (htext : t.text = u.text)
    (hposition : t.position = u.position) : u.Shows after found span := by
  cases h with
  | ending =>
    rw [hposition]
    exact .ending
  | char c rest =>
    rw [hposition]
    exact .char c rest
  | lexeme taken rest hne =>
    rw [position_append_congr htext hposition, hposition]
    exact .lexeme taken rest hne

/-- A failure ends with the last of what it shows. That is read, or it is one character that is
counted to its line. -/
theorem endsWith (h : t.Shows after found span) (hspan : span.isEmpty = false) : ∃ v p,
    span.EndsWith (t ++ found.toList.map .read) v p ∧ found.toList ≠ [] ∧
      (span.stop = (v ++ [p]).position ∧ (span.last = v.lastByte p ↔ ¬ v.EndsLine p) ∨
        found.length = 1 ∧ span.last = v.lastByte p) := by
  cases h with
  | ending =>
    rw [Span.isEmpty_emptyAt] at hspan
    cases hspan
  | char c rest =>
    rw [String.toList_ofList, String.length_ofList]
    exact ⟨t, .read c, ⟨List.prefix_refl _, rfl⟩, List.cons_ne_nil _ _,
      .inr ⟨rfl, Span.last_of_char t c⟩⟩
  | lexeme taken rest hne =>
    rw [String.toList_ofList]
    obtain ⟨v, p, hends, -, hstop, hiff⟩ :=
      Span.Over.last_iff ⟨t, List.prefix_refl _, rfl⟩ hne rfl hspan
    exact ⟨v, p, hends, hne, .inl ⟨hstop, hiff⟩⟩

end Trail.Shows

end GraphQLSyntax
