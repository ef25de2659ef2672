import GraphQLSyntax.Proofs.Grammar.Named
import GraphQLSyntax.Proofs.Grammar.Raised
import GraphQLSyntax.Proofs.Grammar.WellFormed
import GraphQLSyntax.Proofs.Lexical.Last
import GraphQLSyntax.Proofs.Scan.LastByte
import GraphQLSyntax.Proofs.Scan.Listed

/-!
# Where spans say that they end

* `Token.endsWith_of_mem`: the last character of a token, on the trail of the listing.
* `Part.StandsIn.lastTold`: a part ends in line, on the trail of the run that reads it.
* `Document.endsWith_of_parse`: a document ends with its text, which may end a line.
* `SyntaxError.endsWith_of_error`: errors and their notes, on the trail of the run that stops there.
* `Span.last_of_text`: spans tell where their last byte stands, unless that ends a line.
-/

namespace GraphQLSyntax

variable {text : String} {t u : Trail} {s : Scanner}

/-! ## Tokens -/

/-- What is shown of a lexeme that fits a kind ends in line. -/
theorem Scanner.shown_endsInLine {k : Cursor} (h : (ofCursor k).shown.lexeme ≠ .unknown) :
    Lexical.EndsInLine (ofCursor k).shown.text.toList := by
  rw [lexeme_shown] at h
  rw [shown, if_neg h, token, Token.plain, String.toList_ofList]
  exact Lexical.classify_endsInLine h

/-- A token of a listing tells where its last byte stands, unless that ends a line. Only what fits
no kind may end a line. -/
theorem Token.endsWith_of_mem {token : Token} (h : token ∈ listOfText text)
    (hspan : token.span.isEmpty = false) :
    ∃ t p, token.span.EndsWith (Scanner.ofText text).listed t p ∧
      (token.span.last = t.lastByte p ↔ ¬ t.EndsLine p) ∧
      (t.EndsLine p → token.lexeme = .unknown) := by
  obtain ⟨⟨k, hk, rfl⟩, hover⟩ := Scanner.shown_of_mem (.start text) token h
  have hne := hover.isEmpty_eq_false_iff.mp hspan
  obtain ⟨t, p, hends, hlast, -, hiff⟩ := hover.last_iff hne rfl hspan
  refine ⟨t, p, hends, hiff, fun hbreak => ?_⟩
  by_contra hknown
  exact Trail.not_endsLine (Scanner.shown_endsInLine hknown _ hlast) hbreak

/-! ## Parts of trees -/

/-- A terminal ends in line. -/
theorem Terminal.Stands.endsInLine {τ : Terminal} {rest : List Char} (h : τ.Stands rest) :
    Lexical.EndsInLine τ.chars := by
  cases τ with
  | lexeme kind word =>
    obtain ⟨hclassify, hcontrol, -⟩ := h
    have hends := @Lexical.classify_endsInLine (word.toList ++ rest)
    rw [hclassify] at hends
    refine hends ?_
    rintro rfl
    cases hcontrol
  | sigilName sigil name =>
    have hends := @Lexical.classify_endsInLine (name.toList ++ rest)
    rw [h.2] at hends
    refine .cons ?_ (hends (by rintro ⟨⟩))
    rcases h.1 with rfl | rfl <;> rfl
  | spread => exact .of_forall (by simp [chars, Text.inLine, Text.isLineBreak])
  | object word =>
    obtain ⟨body, hword, hbraced⟩ := h
    have hends := @Lexical.braced_endsInLine (body ++ rest) 0
    rw [hbraced] at hends
    rw [chars, hword]
    exact .cons rfl (hends rfl)
  | mark c =>
    refine .cons ?_ .nil
    rcases h with rfl | rfl | rfl <;> rfl

/-- What stands in a text is not empty. -/
theorem Part.StandsIn.isEmpty {p : Part} (h : p.StandsIn text) :
    ∀ span ∈ p.span?, span.isEmpty = false := by
  intro span hspan
  obtain ⟨k, k', hk, ⟨pieces, hlaid, hspelled⟩, -⟩ := h
  rw [Piece.map_id, List.map_id] at hspelled
  obtain rfl := hspelled.span_eq hlaid span hspan
  exact Span.isEmpty_of_lt (hlaid.offset_lt hspelled.ne_nil)

/-- A piece that is read tells where it ends, and so does everything that ends with it. -/
theorem Piece.ReadOn.lastTold {p : Piece} {span : Span} (h : p.ReadOn t)
    (hstop : span.stop = p.span.stop) (hspan : span.isEmpty = false) : span.LastTold t := by
  obtain ⟨rest, hstands⟩ := h.stands
  exact h.span_over.lastTold hstands.chars_ne_nil hstop hspan hstands.endsInLine

/-- A part tells where its last byte stands. -/
theorem Part.StandsIn.lastTold {p : Part} (h : p.StandsIn text) (htracked : p.Tracked t) :
    ∀ span ∈ p.span?, span.LastTold t := by
  intro span hspan
  obtain ⟨first, last, -, hlast, rfl⟩ := htracked.span_eq span hspan
  exact hlast.lastTold rfl (h.isEmpty _ hspan)

/-- So does everything in a part. -/
theorem Part.StandsIn.lastTold_of_contains {p q : Part} (h : p.StandsIn text)
    (htracked : p.Tracked t) (hq : p.Contains q) : ∀ span ∈ q.span?, span.LastTold t :=
  (Part.contains_induction (fun _ => Part.StandsIn.part) hq h).lastTold
    (Part.contains_induction (fun _ hp => hp.part) hq htracked)

/-! ## Whole texts -/

/-- A document ends with its text. -/
theorem Document.endsWith_of_stop {d : Document} (hstart : d.span.start = .start)
    (hstop : d.span.stop = t.position) (hspan : d.span.isEmpty = false) : ∃ before p,
      t = before ++ [p] ∧ d.span.EndsWith t before p ∧
        (d.span.last = before.lastByte p ↔ ¬ before.EndsLine p) := by
  cases t using List.reverseRecOn with
  | nil =>
    have hempty : d.span = .emptyAt .start := by
      rw [Span.emptyAt, ← hstart]
      exact congrArg (Span.mk d.span.start) (hstop.trans hstart.symm)
    rw [hempty, Span.isEmpty_emptyAt] at hspan
    cases hspan
  | append_singleton before p =>
    exact ⟨before, p, rfl, .of_concat (List.prefix_refl _) hstop,
      Span.last_eq_lastByte_iff hspan hstop⟩

/-! ## Errors -/

namespace SyntaxError

variable {e : SyntaxError}

/-- What an error shows of the text, gone past from where it starts. -/
def foundTrail (e : SyntaxError) : Trail :=
  if e.span.isEmpty then [] else e.found.toList.map .read

/-- A single character that is found takes up columns of its line. -/
theorem Raised.one_lt_column (h : e.Raised text) (hne : e.span.isEmpty = false)
    (hone : e.found.length = 1) : 1 < e.span.stop.column := by
  obtain ⟨t, s, hs, hfound, hspan, hhead⟩ := h.past
  have hcolumn := t.one_le_column
  have hright (n : Nat) (hn : 0 < n) : 1 < (t.position.shiftRight n).column :=
    Nat.lt_of_lt_of_le (Nat.lt_add_of_pos_right hn) (Nat.add_le_add_right hcolumn n)
  cases htext : s.text with
  | nil =>
    cases hrest : s.cursor.rest with
    | nil =>
      rw [hspan, (Scanner.failure_of_end htext hrest).2, Span.isEmpty_emptyAt] at hne
      cases hne
    | cons c rest =>
      have hstop : e.span.stop = t.position.shiftRight c.utf8Size := by
        rw [hspan, (Scanner.failure_of_char htext hrest).2, hs.start_eq]
      rw [hstop]
      exact hright _ c.utf8Size_pos
  | cons c cs =>
    have htaken := Scanner.failure_of_text (s := s) (by simp [htext])
    obtain rfl : cs = [] := by
      rw [hfound, htaken.1, htext, String.length_ofList] at hone
      exact List.length_eq_zero_iff.mp (Nat.succ.inj hone)
    have hstop : e.span.stop = t.position.shiftRight (Text.byteLength [c]) := by
      rw [hspan, htaken.2, ← t.position_read, ← htext]
      · exact hs.cursor_past.position_eq
      · exact List.forall_mem_singleton.mpr (hhead c (by rw [htext]; rfl))
    rw [hstop]
    exact hright _ (Text.byteLength_pos (List.cons_ne_nil c []))

/-- What an error shows follows where it starts. -/
theorem text_foundTrail {after : List Char} (h : u.Shows after e.found e.span) :
    e.foundTrail.text <+: after := by
  unfold foundTrail
  obtain ⟨hspan, -⟩ | ⟨hspan, hfound⟩ := h.follows
  · rw [if_pos hspan]
    exact List.nil_prefix
  · rw [if_neg (by simp [hspan]), Trail.text_read]
    exact hfound

/-- The notes of an error point back at what was opened, which is one character of a line. -/
theorem PointsBack.lastTold {pieces : List Piece} {after : List Char} (h : e.PointsBack pieces)
    (hpieces : ∀ p ∈ pieces, p.ReadOn u) (hshows : u.Shows after e.found e.span) :
    ∀ note ∈ e.notes, ∀ span ∈ note.span, span.LastTold (u ++ e.foundTrail) := by
  intro note hnote span hspan
  obtain ⟨p, hp, -, rfl⟩ | ⟨hhead, rfl⟩ := h note hnote span hspan
  · have hread := hpieces p hp
    obtain ⟨rest, hstands⟩ := hread.stands
    exact (hread.lastTold rfl (hread.span_over.isEmpty_eq_false_iff.mpr hstands.chars_ne_nil)).append _
  · obtain ⟨rest, hfound⟩ := List.head?_eq_some_iff.mp hhead
    have hne : e.span.isEmpty = false := by
      obtain ⟨-, hend, -⟩ | ⟨hne, -⟩ := hshows.follows
      · rw [hend] at hfound
        cases hfound
      · exact hne
    have htrail : e.foundTrail = .read '{' :: rest.map .read := by
      rw [foundTrail, if_neg (by simp [hne]), hfound]
      rfl
    rw [hshows.start_eq, htrail]
    exact ⟨u, .read '{', ⟨⟨_, List.append_assoc _ _ _⟩, rfl⟩, Span.last_of_char u '{'⟩

/-- An error tells where its last byte stands, unless that ends a line. A line break is found alone
where no name touches a sigil, and it is counted to the line that it ends. The notes of an error
tell without exception. -/
theorem endsWith_of_error (h : Document.parse text = .error e ∨ TypeRef.parse text = .error e ∨
    Value.parse text = .error e) : ∃ items u, e.Refuses text items ∧ Item.ReadUpTo text items u ∧
      (u ++ e.foundTrail).text <+: text.toList ∧ e.span.start = u.position ∧
      (e.span.isEmpty = false → ∃ t p, e.span.EndsWith (u ++ e.foundTrail) t p ∧
        (e.span.last = t.lastByte p ↔ ¬ (t.EndsLine p ∧ 1 < e.found.length))) ∧
      ∀ note ∈ e.notes, ∀ span ∈ note.span, span.LastTold (u ++ e.foundTrail) := by
  obtain ⟨items, hitems, hstops⟩ := stops_of_error h
  obtain ⟨u, pieces, hread, ⟨after, hafter⟩, hstart, hpoints, hpieces⟩ := hstops.readUpTo
  have hraised := raised_of_error h
  obtain ⟨t, after', htext, -, hshows⟩ := hraised.shown
  have hposition : t.position = u.position := hshows.start_eq.symm.trans hstart
  obtain ⟨hsame, rfl⟩ := Text.append_inj (htext.symm.trans hafter.symm)
    (congrArg Position.byteOffset hposition)
  have hshows := hshows.congr hsame hposition
  refine ⟨items, u, hitems, hread, ?_, hstart, fun hspan => ?_,
    hpoints.lastTold hpieces hshows⟩
  · rw [Trail.text_append, ← hafter]
    exact (List.prefix_append_right_inj _).mpr (text_foundTrail hshows)
  · have hcolumn := hraised.one_lt_column hspan
    obtain ⟨t, p, hends, hne, hlast⟩ := hshows.endsWith hspan
    rw [foundTrail, if_neg (by simp [hspan])]
    refine ⟨t, p, hends, ?_⟩
    obtain ⟨hstop, hiff⟩ | ⟨hone, hlast⟩ := hlast
    · rw [hiff]
      refine not_congr (iff_self_and.mpr fun hbreak => ?_)
      have hpos : e.found.length ≠ 0 := by
        rw [← String.length_toList]
        exact fun hnil => hne (List.length_eq_zero_iff.mp hnil)
      have hnot : e.found.length ≠ 1 := fun hone => by
        have hlt := hcolumn hone
        rw [hstop, t.column_concat_break hbreak.1] at hlt
        exact absurd hlt (Nat.lt_irrefl 1)
      omega
    · exact iff_of_true hlast fun hlong => absurd hlong.2 (by omega)

end SyntaxError

/-! ## Spans -/

/-- **Spans tell where their last byte stands, unless that ends a line.** Everything in the tree of
a text that is accepted does, as the run that reads the tree counts, and so does every note of an
error, as the run counts that stops there. A document may end a line with its text, a token may if
it is unknown, and so may an error that shows more than one character. -/
theorem Span.last_of_text (text : String) :
    ((Scanner.ofText text).listed.text <+: text.toList ∧
      ∀ token ∈ Token.listOfText text, token.span.isEmpty = false →
        ∃ t p, token.span.EndsWith (Scanner.ofText text).listed t p ∧
          (token.span.last = t.lastByte p ↔ ¬ t.EndsLine p) ∧
          (t.EndsLine p → token.lexeme = .unknown)) ∧
    (∀ d, Document.parse text = .ok d →
      ∃ u, Item.ReadThrough text (d.definitions.map Definition.item) u ∧ u.text = text.toList ∧
        (d.span.isEmpty = false → ∃ t p, u = t ++ [p] ∧ d.span.EndsWith u t p ∧
          (d.span.last = t.lastByte p ↔ ¬ t.EndsLine p)) ∧
        ∀ p ∈ d.parts, ∀ q, p.Contains q → ∀ span ∈ q.span?, span.LastTold u) ∧
    (∀ x, TypeRef.parse text = .ok x →
      ∃ u, Item.ReadThrough text [x.item] u ∧ u.text = text.toList ∧
        ∀ q, (Part.node (.typeRef x)).Contains q → ∀ span ∈ q.span?, span.LastTold u) ∧
    (∀ v, Value.parse text = .ok v →
      ∃ u, Item.ReadThrough text [v.item] u ∧ u.text = text.toList ∧
        ∀ q, (Part.node (.value v)).Contains q → ∀ span ∈ q.span?, span.LastTold u) ∧
    ∀ e, (Document.parse text = .error e ∨ TypeRef.parse text = .error e ∨
        Value.parse text = .error e) →
      ∃ items u, e.Refuses text items ∧ Item.ReadUpTo text items u ∧
        (u ++ e.foundTrail).text <+: text.toList ∧ e.span.start = u.position ∧
        (e.span.isEmpty = false → ∃ t p, e.span.EndsWith (u ++ e.foundTrail) t p ∧
          (e.span.last = t.lastByte p ↔ ¬ (t.EndsLine p ∧ 1 < e.found.length))) ∧
        ∀ note ∈ e.notes, ∀ span ∈ note.span, span.LastTold (u ++ e.foundTrail) := by
  refine ⟨⟨Scanner.text_listed_isPrefix (t := []) (.start text),
    fun token htoken hspan => Token.endsWith_of_mem htoken hspan⟩, fun d h => ?_, fun x h => ?_,
    fun v h => ?_, fun e h => SyntaxError.endsWith_of_error h⟩
  · obtain ⟨u, hread, htext, hstart, hstop, hparts⟩ := Document.tracked_of_parse h
    exact ⟨u, hread, htext, Document.endsWith_of_stop hstart hstop, fun p hp q hq =>
      (Document.standsIn_of_parse h p hp).lastTold_of_contains (hparts p hp) hq⟩
  · obtain ⟨r, hr⟩ := TypeRef.parse_eq_ok.mp h
    obtain ⟨u, hread, htext, hpart⟩ :=
      Reader.Reads.tracked (f := fun x => .node (.typeRef x)) Reader.reads_typeRef hr
    exact ⟨u, hread, htext, fun q hq =>
      (TypeRef.standsIn_of_parse h).lastTold_of_contains hpart hq⟩
  · obtain ⟨r, hr⟩ := Value.parse_eq_ok.mp h
    obtain ⟨u, hread, htext, hpart⟩ :=
      Reader.Reads.tracked (f := fun v => .node (.value v)) Reader.reads_value hr
    exact ⟨u, hread, htext, fun q hq =>
      (Value.standsIn_of_parse h).lastTold_of_contains hpart hq⟩

/-- A byte order mark that does not count, a string over two lines, and a character of two bytes in
the last line. -/
theorem Span.last_of_text_query : ∃ text d u t p,
    text = "\ufeff\x7b a(b: \"\"\"\r\n\"\"\") \x7d #é" ∧ Document.parse text = .ok d ∧
      d.span.last = ⟨2, 10, 24⟩ ∧ Item.ReadThrough text (d.definitions.map Definition.item) u ∧
      u = t ++ [p] ∧ d.span.EndsWith u t p ∧ (d.span.last = t.lastByte p ↔ ¬ t.EndsLine p) ∧
      ∀ p ∈ d.parts, ∀ q, p.Contains q → ∀ span ∈ q.span?, span.LastTold u := by
  have hspan : (Document.parse "\ufeff\x7b a(b: \"\"\"\r\n\"\"\") \x7d #é").toOption.map
      (·.span) = some ⟨.start, ⟨2, 11, 25⟩⟩ := by
    decide +kernel
  cases hparse : Document.parse "\ufeff\x7b a(b: \"\"\"\r\n\"\"\") \x7d #é" with
  | error e =>
    rw [hparse] at hspan
    cases hspan
  | ok d =>
    rw [hparse] at hspan
    have hspan : d.span = ⟨.start, ⟨2, 11, 25⟩⟩ := Option.some.inj hspan
    obtain ⟨u, hread, -, hdocument, hparts⟩ := (last_of_text _).2.1 d hparse
    obtain ⟨t, p, hu, hends, hlast⟩ := hdocument (by rw [hspan]; decide)
    exact ⟨_, d, u, t, p, rfl, hparse, by rw [hspan]; decide, hread, hu, hends, hlast, hparts⟩

/-- Behind a closing brace, a line feed ends the document. Its span tells of the line below. -/
theorem Span.last_of_lineFeed : ∃ text d u, text = "\x7ba\x7d\n" ∧ Document.parse text = .ok d ∧
    Item.ReadThrough text (d.definitions.map Definition.item) u ∧ u.text = text.toList ∧
      d.span.isEmpty = false ∧ d.span.last = ⟨2, 1, 3⟩ ∧ (∃ t p, d.span.EndsWith u t p) ∧
      ∀ t p, d.span.EndsWith u t p → t.lastByte p = ⟨1, 4, 3⟩ := by
  have hspan : (Document.parse "\x7ba\x7d\n").toOption.map (·.span) =
      some ⟨.start, ⟨2, 1, 4⟩⟩ := by
    decide +kernel
  cases hparse : Document.parse "\x7ba\x7d\n" with
  | error e =>
    rw [hparse] at hspan
    cases hspan
  | ok d =>
    rw [hparse] at hspan
    have hspan : d.span = ⟨.start, ⟨2, 1, 4⟩⟩ := Option.some.inj hspan
    have hne : d.span.isEmpty = false := by
      rw [hspan]
      rfl
    obtain ⟨u, hread, htext, hstart, hstop, -⟩ := Document.tracked_of_parse hparse
    obtain ⟨before, last, rfl, hends, -⟩ := Document.endsWith_of_stop hstart hstop hne
    refine ⟨_, d, _, rfl, hparse, hread, htext, hne, by rw [hspan]; rfl, ⟨_, _, hends⟩,
      fun t p hends' => ?_⟩
    obtain ⟨rfl, rfl⟩ := hends.unique hends'
    -- The line feed is the last character of the text.
    obtain ⟨hbefore, hlast⟩ : before.text = ['{', 'a', '}'] ∧ [last.char] = ['\n'] := by
      rw [Trail.text_concat] at htext
      exact List.append_inj' (htext.trans (by decide)) rfl
    have hchar : last.char = '\n' := List.singleton_inj.mp hlast
    rw [before.lastByte_of_not_mark (by simp [Passed.isMark, hchar, Lexical.byteOrderMark]), hchar]
    refine Position.ext ?_ ?_ ?_
    · show 1 + Text.lineEnds before.text = 1
      rw [hbefore]
      rfl
    · show before.position.column + 0 = 4
      rw [Trail.column_eq (by rw [hbefore]; decide), hbefore]
      rfl
    · show Text.byteLength before.text + 0 = 3
      rw [hbefore]
      rfl

end GraphQLSyntax
