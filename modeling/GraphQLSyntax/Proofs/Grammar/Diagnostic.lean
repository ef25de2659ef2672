import GraphQLSyntax.Proofs.Grammar.Raised

/-!
# Diagnostics point at the text that they are about

* `Span.carets`: how many carets stand under what was found. `Trail.Shows.underline_eq`: a
  diagnostic shows that many.
* `Layout.LaysOut`: something is laid out where its markers are not too far to the right.
* `SyntaxError.Raised.laysOut_diagnostic`: so is a diagnostic, on the line of its error.
* `SyntaxError.diagnostic_ok_iff`: which errors have a diagnostic.
* `SyntaxError.diagnostic_points`: what a diagnostic shows, and where it points.
-/

namespace GraphQLSyntax

open Text

variable {text : String} {t : Trail}

/-! ## Carets -/

/-- `n` carets. -/
def Layout.carets (n : Nat) : String := String.ofList (List.replicate n '^')

namespace Span

theorem underline_emptyAt (p : Position) : (emptyAt p).underline = .ok (Layout.carets 1) := by
  rw [underline, if_pos (.inl (isEmpty_emptyAt p))]
  rfl

/-- Every byte of a line is underlined. -/
theorem underline_of_line_eq {s : Span} {n : Nat} (hline : s.stop.line = s.start.line)
    (hcolumn : s.stop.column = s.start.column + n) (hpos : 1 ≤ s.start.column) (hn : 1 ≤ n)
    (hoffset : s.start.byteOffset < s.stop.byteOffset) : s.underline = .ok (Layout.carets n) := by
  have hempty := isEmpty_of_lt hoffset
  have hendLine : s.endLine = s.start.line := by
    rw [endLine, hempty]
    exact hline
  have hendColumn : s.endColumn + 1 = s.start.column + n := by
    simp only [endColumn, hempty, Bool.false_eq_true, ↓reduceIte, hcolumn]
    omega
  rw [underline, hempty, hendLine, hendColumn, if_neg (by simp), if_pos (by omega),
    Nat.add_sub_cancel_left]
  rfl

/-- What goes on in another line is underlined once. -/
theorem underline_of_line_lt {s : Span} (hline : s.start.line < s.stop.line)
    (hoffset : s.start.byteOffset < s.stop.byteOffset) : s.underline = .ok (Layout.carets 1) := by
  have hendLine : s.endLine = s.stop.line := by
    rw [endLine, isEmpty_of_lt hoffset]
    rfl
  rw [underline, hendLine, if_pos (.inr (by omega))]
  rfl

end Span

theorem Text.byteLength_blanks (n : Nat) : byteLength (List.replicate n ' ') = n := by
  induction n with
  | zero => rfl
  | succ n ih =>
    rw [List.replicate_succ, byteLength_cons, ih]
    exact Nat.add_comm 1 n

/-- How many carets stand under what was found: as many as it has bytes, where it stands in the
text and in one line. -/
def Span.carets (s : Span) (found : String) : Nat :=
  if s.isEmpty = false ∧ found.toList.all inLine then byteLength found.toList else 1

/-- **What was found is underlined.** -/
theorem Trail.Shows.underline_eq {after : List Char} {found : String} {span : Span}
    (h : t.Shows after found span) (hwhole : ¬ CutsLineEnd t.text after) :
    span.underline = .ok (Layout.carets (span.carets found)) := by
  cases h with
  | ending =>
    rw [Span.carets, if_neg (by simp)]
    exact Span.underline_emptyAt _
  | char c rest =>
    have hsize := c.utf8Size_pos
    have hlt : t.position.byteOffset < t.position.byteOffset + c.utf8Size := by omega
    have hcarets : (⟨t.position, t.position.shiftRight c.utf8Size⟩ : Span).carets
        (String.ofList [c]) = c.utf8Size := by
      rw [Span.carets, Span.isEmpty_of_lt hlt]
      by_cases hc : inLine c
      · simp [hc]
      · rw [if_neg (by simpa using hc)]
        obtain rfl | rfl : c = '\n' ∨ c = '\r' := by
          simpa [inLine, isLineBreak, Classical.or_iff_not_imp_left] using hc
        · rfl
        · rfl
    rw [hcarets]
    exact Span.underline_of_line_eq rfl rfl t.one_le_column hsize hlt
  | lexeme taken rest hne =>
    have hpos := byteLength_pos hne
    have hlt : t.position.byteOffset < (t ++ taken.map Passed.read).position.byteOffset := by
      rw [Trail.byteOffset_read]
      omega
    rw [Span.carets, Span.isEmpty_of_lt hlt, String.toList_ofList]
    by_cases hline : ∀ c ∈ taken, inLine c
    · rw [if_pos ⟨rfl, List.all_eq_true.mpr hline⟩, Trail.position_read t hline]
      exact Span.underline_of_line_eq rfl rfl t.one_le_column hpos (by
        rwa [Trail.position_read t hline] at hlt)
    · rw [if_neg fun h => hline (List.all_eq_true.mp h.2)]
      refine Span.underline_of_line_lt (Trail.line_lt_read ?_ hline) hlt
      rintro ⟨hreturn, hfeed⟩
      exact hwhole ⟨hreturn, by rw [List.head?_append, hfeed]; rfl⟩

/-! ## Layout -/

namespace Layout

/-- Something is laid out as `shown` where it fits. Where it does not, it is because of a column
that is too far to the right. -/
def LaysOut {α : Type} (x : Except Failure α) (fits : Prop) (shown : α) : Prop :=
  fits ∧ x = .ok shown ∨ ¬ fits ∧ ∃ column, widest + 1 < column ∧ x = .error (.tooWide column)

namespace LaysOut

variable {α β : Type} {x : Except Failure α} {f : α → Except Failure β} {p q : Prop} {a : α} {b : β}

theorem indent (column : Nat) :
    LaysOut (Layout.indent column) (column ≤ widest + 1) (blanks (column - 1)) := by
  unfold Layout.indent
  by_cases h : column ≤ widest + 1
  · exact .inl ⟨h, if_pos (by omega)⟩
  · exact .inr ⟨h, column, by omega, if_neg (by omega)⟩

theorem bind (hx : LaysOut x p a) (hf : LaysOut (f a) q b) : LaysOut (x >>= f) (p ∧ q) b := by
  obtain ⟨hp, rfl⟩ | ⟨hp, column, hcolumn, rfl⟩ := hx
  · obtain ⟨hq, hfa⟩ | ⟨hq, column, hcolumn, hfa⟩ := hf
    · exact .inl ⟨⟨hp, hq⟩, hfa⟩
    · exact .inr ⟨fun h => hq h.2, column, hcolumn, hfa⟩
  · exact .inr ⟨fun h => hp h.1, column, hcolumn, rfl⟩

theorem map (hx : LaysOut x p a) (g : α → β) : LaysOut (x >>= fun a => pure (g a)) p (g a) := by
  obtain ⟨hp, rfl⟩ | ⟨hp, column, hcolumn, rfl⟩ := hx
  · exact .inl ⟨hp, rfl⟩
  · exact .inr ⟨hp, column, hcolumn, rfl⟩

theorem mapM {as : List α} {fits : α → Prop} {shown : α → β}
    (h : ∀ a ∈ as, LaysOut (f a) (fits a) (shown a)) :
    LaysOut (as.mapM f) (∀ a ∈ as, fits a) (as.map shown) := by
  induction as with
  | nil => exact .inl ⟨by simp, rfl⟩
  | cons a as ih =>
    rw [List.mapM_cons, List.forall_mem_cons, List.map_cons]
    exact (h a (by simp)).bind ((ih fun b hb => h b (by simp [hb])).map (shown a :: ·))

/-- Nothing but a column that is too far to the right stands against laying something out. -/
theorem ok_iff (h : LaysOut x p a) : (∃ b, x = .ok b) ↔ p := by
  obtain ⟨hp, rfl⟩ | ⟨hp, column, -, rfl⟩ := h
  · exact iff_of_true ⟨a, rfl⟩ hp
  · exact iff_of_false (by rintro ⟨b, ⟨⟩⟩) hp

theorem eq_ok (h : LaysOut x p a) (hp : p) : x = .ok a := by
  obtain ⟨-, hx⟩ | ⟨hnot, -⟩ := h
  · exact hx
  · exact absurd hp hnot

theorem eq_tooWide {failure : Failure} (h : LaysOut x p a) (hx : x = .error failure) :
    ∃ column, widest + 1 < column ∧ failure = .tooWide column := by
  obtain ⟨-, rfl⟩ | ⟨-, column, hcolumn, rfl⟩ := h
  · cases hx
  · cases hx
    exact ⟨column, hcolumn, rfl⟩

end LaysOut

end Layout

/-! ## What a diagnostic shows -/

/-- A line of `text` is found by the line number of a position, and around its byte offset. -/
def Position.InLine (text : String) (p : Position) (line : List Char) : Prop :=
  Text.line? p.line text.toList = some line ∧ Text.lineAt? p.byteOffset text.toList = some line

theorem Trail.inLine_position {after : List Char} (h : text.toList = t.text ++ after)
    (hwhole : ¬ CutsLineEnd t.text after) : t.position.InLine text (lineAround t.text after) :=
  ⟨line?_position h hwhole, by rw [h]; exact lineAt?_append t.text after⟩

theorem Scanner.Past.inLine {s : Scanner} (h : s.Past text t) :
    s.start.InLine text (lineAround t.text (s.text ++ s.cursor.rest)) := by
  rw [h.start_eq]
  exact Trail.inLine_position h.text_eq h.whole

namespace Span

/-- A source line with its number, and carets from the start of the span on. -/
def excerpt (s : Span) (line : List Char) (carets : Nat) : String :=
  let width := Layout.gutter s.start.line
  Layout.blanks width ++ " |\n"
    ++ Layout.rightAligned width s.start.line ++ " | " ++ String.ofList line ++ "\n"
    ++ Layout.blanks width ++ " | " ++ Layout.blanks (s.start.column - 1) ++ Layout.carets carets
    ++ "\n"

/-- A source line with its number, and a marker at the start of the span. -/
def pointer (s : Span) (line : List Char) : String :=
  let width := Layout.gutter s.start.line
  "     " ++ Layout.rightAligned width s.start.line ++ " | " ++ String.ofList line
    ++ "\n     " ++ Layout.blanks width ++ " | " ++ Layout.blanks (s.start.column - 1) ++ "-\n"

end Span

namespace Note

/-- The line of a note that says what it is. -/
def heading (note : Note) : String := "   = " ++ note.kind.label ++ ": " ++ note.message ++ "\n"

/-- A note, with the line around the place that it points at. -/
def shown (text : String) (note : Note) : String :=
  note.heading ++ match note.span with
    | none => ""
    | some span => span.pointer ((Text.lineAt? span.start.byteOffset text.toList).getD [])

/-- The marker of a note is not too far to the right. -/
def Fits (note : Note) : Prop := ∀ span ∈ note.span, span.start.column ≤ Layout.widest + 1

theorem laysOut_render {note : Note} (h : ∀ span ∈ note.span, ∃ line, span.start.InLine text line) :
    Layout.LaysOut (note.render (some text)) note.Fits (note.shown text) := by
  obtain ⟨kind, message, span⟩ := note
  cases span with
  | none => exact .inl ⟨by rintro _ ⟨⟩, rfl⟩
  | some span =>
    obtain ⟨line, hline, hat⟩ := h span rfl
    have hfits : (Note.mk kind message (some span)).Fits ↔
        span.start.column ≤ Layout.widest + 1 := by simp [Fits]
    have hsnippet : Layout.LaysOut (snippet text span) (span.start.column ≤ Layout.widest + 1)
        (span.pointer line) := by
      unfold snippet
      rw [hline]
      exact (Layout.LaysOut.indent _).map _
    have hshown : (Note.mk kind message (some span)).shown text =
        (Note.mk kind message (some span)).heading ++ span.pointer line := by
      show _ ++ span.pointer ((Text.lineAt? span.start.byteOffset text.toList).getD []) = _
      rw [hat]
      rfl
    rw [hfits, hshown]
    exact hsnippet.map _

end Note

namespace SyntaxError

variable {e : SyntaxError}

/-- No marker of a diagnostic is too far to the right. -/
def Fits (e : SyntaxError) : Prop := e.column ≤ Layout.widest + 1 ∧ ∀ note ∈ e.notes, note.Fits

/-- An error with the source line that it stands on, what was found underlined, and its notes. -/
def shownOn (text : String) (line : List Char) (e : SyntaxError) : String :=
  "error: " ++ e.message ++ "\n  --> " ++ e.location ++ "\n"
    ++ e.span.excerpt line (e.span.carets e.found) ++ String.join (e.notes.map (Note.shown text))

/-- The line of an error is found by its number. -/
theorem Raised.exists_line (h : e.Raised text) : ∃ line, e.span.start.InLine text line := by
  obtain ⟨t, after, htext, hwhole, hshows⟩ := h.shown
  rw [hshows.start_eq]
  exact ⟨_, Trail.inLine_position htext hwhole⟩

/-- So is the line of each of its notes. -/
theorem Raised.exists_note_line {note : Note} {span : Span} (h : e.Raised text)
    (hnote : note ∈ e.notes) (hspan : span ∈ note.span) :
    ∃ line, span.start.InLine text line := by
  obtain ⟨opener, delimiter, hopener, -, rfl⟩ := h.pointed note hnote span hspan
  obtain ⟨t, ht⟩ := hopener.past
  exact ⟨_, ht.inLine⟩

/-- **A diagnostic shows the line of its error**, and what was found underlined there. -/
theorem Raised.laysOut_diagnostic {line : List Char} (h : e.Raised text)
    (hline : e.span.start.InLine text line) :
    Layout.LaysOut (e.diagnostic (some text)) e.Fits (e.shownOn text line) := by
  obtain ⟨t, after, htext, hwhole, hshows⟩ := h.shown
  have hsnippet : Layout.LaysOut (e.snippet text) (e.column ≤ Layout.widest + 1)
      (e.span.excerpt line (e.span.carets e.found)) := by
    unfold snippet
    rw [SyntaxError.line, hline.1, hshows.underline_eq hwhole]
    exact (Layout.LaysOut.indent _).map _
  have hnotes : Layout.LaysOut (e.notes.mapM (Note.render (some text)))
      (∀ note ∈ e.notes, note.Fits) (e.notes.map (Note.shown text)) :=
    .mapM fun note hnote => Note.laysOut_render fun span hspan => h.exists_note_line hnote hspan
  exact hsnippet.bind (hnotes.map _)

/-- In its line, an error stands before what was found. -/
theorem Raised.below (h : e.Raised text) (hmark : Lexical.byteOrderMark ∉ text.toList) :
    ∃ line below, e.span.start.InLine text line ∧
      Text.dropBytes? (e.column - 1) line = some below ∧
      (e.span.isEmpty = true ∧ below = [] ∨
        e.span.isEmpty = false ∧ e.found.toList.takeWhile Text.inLine <+: below) := by
  obtain ⟨t, after, htext, hwhole, hshows⟩ := h.shown
  have hmark' : Lexical.byteOrderMark ∉ t.text := fun h => hmark (by simp [htext, h])
  refine ⟨lineAround t.text after, after.takeWhile inLine, ?_, ?_, ?_⟩
  · rw [hshows.start_eq]
    exact Trail.inLine_position htext hwhole
  · rw [column, hshows.start_eq]
    exact Trail.dropBytes?_column hmark' after
  · refine hshows.follows.imp (fun hend => ⟨hend.1, ?_⟩) fun hfound => ⟨hfound.1, ?_⟩
    · rw [hend.2.2]
      rfl
    · obtain ⟨rest, hrest⟩ := hfound.2
      rw [← hrest, List.takeWhile_append]
      split
      · exact (List.takeWhile_prefix _).trans (List.prefix_append _ _)
      · exact List.prefix_refl _

/-- In its line, a note points at a delimiter. -/
theorem Raised.note_below {note : Note} {span : Span} (h : e.Raised text)
    (hmark : Lexical.byteOrderMark ∉ text.toList) (hnote : note ∈ e.notes)
    (hspan : span ∈ note.span) : ∃ line below c, span.start.InLine text line ∧
      Text.dropBytes? (span.start.column - 1) line = some (c :: below) ∧
      (c = '(' ∨ c = '[' ∨ c = '{') := by
  obtain ⟨opener, delimiter, hopener, hopens, rfl⟩ := h.pointed note hnote span hspan
  obtain ⟨t, ht⟩ := hopener.past
  have hmark' : Lexical.byteOrderMark ∉ t.text := fun h => hmark (by simp [ht.text_eq, h])
  obtain ⟨c, hc, hopening⟩ := hopener.opening_of_opens hopens
  have hin : inLine c := by
    rcases hopening with rfl | rfl | rfl <;> rfl
  refine ⟨_, opener.cursor.rest.takeWhile inLine, c, ht.inLine, ?_, hopening⟩
  rw [Scanner.span, ht.start_eq, Trail.dropBytes?_column hmark', hc, List.singleton_append,
    List.takeWhile_cons_of_pos hin]

/-! ## Long lines -/

/-- A document does not start with a closing brace. -/
theorem parse_of_curlyClose (h : (Cursor.ofText text).ahead = .curlyClose) :
    Document.parse text = .error ((Scanner.ofCursor (Cursor.ofText text).skipTrivia).unexpected
      ["an operation", "a fragment"]) := by
  have hknown : (Cursor.ofText text).ahead ≠ .unknown := by
    rw [h]
    decide
  have hfirst : Reader.advance (.ofText text) = .ok ((), .ofCursor (.ofText text)) :=
    Reader.advance_eq_ok.mpr ⟨hknown, rfl⟩
  have hkeyword : (Reading.ofCursor (.ofText text)).scanner.keyword .execution = .curlyClose := by
    rw [Scanner.keyword, Reading.lexeme_ofCursor, h, if_neg (by decide)]
  have hdefinition : Reader.definition (.ofCursor (.ofText text)) =
      .error ((Scanner.ofCursor (Cursor.ofText text).skipTrivia).unexpected
        ["an operation", "a fragment"]) := by
    unfold Reader.definition
    rw [Reader.keyword_bind, hkeyword]
    rfl
  rw [Document.parse_eq, Reader.bind_apply, hfirst]
  show (Reader.definitions (.ofCursor (.ofText text))).map _ = _
  rw [Reader.definitions_of_more (by rw [Reading.lexeme_ofCursor, h]; decide),
    Reader.bind_apply, hdefinition]
  rfl

/-- Blanks lead to the column behind them. -/
theorem column_behind_blanks {n : Nat} {rest : List Char}
    (h : text.toList = List.replicate n ' ' ++ rest) :
    ((Cursor.ofText text).consume (List.replicate n ' ')).position.column = n + 1 := by
  have hin : ∀ c ∈ List.replicate n ' ', inLine c := by
    intro c hc
    rw [List.eq_of_mem_replicate hc]
    rfl
  rw [((Cursor.Past.start text).consume ⟨rest, h.symm⟩).position_eq, Trail.position_read [] hin,
    byteLength_blanks]
  exact Nat.add_comm 1 n

/-- A brace that closes nothing is refused where it stands, however far to the right. -/
theorem exists_column_of_blanks (n : Nat) : ∃ e : SyntaxError, e.column = n + 1 ∧
    Document.parse (String.ofList (List.replicate n ' ' ++ ['}'])) = .error e := by
  generalize htext : String.ofList (List.replicate n ' ' ++ ['}']) = text
  have hrest : text.toList = List.replicate n ' ' ++ ['}'] := by
    rw [← htext]
    exact String.toList_ofList
  have hskip : (Cursor.ofText text).skipTrivia =
      (Cursor.ofText text).consume (List.replicate n ' ') := by
    refine Cursor.skipTrivia_eq_consume hrest (fun c hc => ?_) ?_
    · rw [List.eq_of_mem_replicate hc]
      rfl
    · rintro c ⟨⟩
      decide
  have hahead : (Cursor.ofText text).ahead = .curlyClose := by
    show (Lexical.classify (Cursor.ofText text).skipTrivia.rest).1 = _
    rw [hskip, Cursor.rest_consume_of_append hrest]
    rfl
  refine ⟨_, ?_, parse_of_curlyClose hahead⟩
  rw [← column_behind_blanks hrest, ← hskip]
  exact congrArg Position.column (Scanner.failureSpan_start _)

/-! ## Diagnostics of errors -/

/-- **A diagnostic can be laid out exactly where no marker is too far to the right.** Nothing else
stands against it: what was found never ends before the column that it starts in. -/
theorem diagnostic_ok_iff (h : Document.parse text = .error e ∨ TypeRef.parse text = .error e ∨
    Value.parse text = .error e) :
    ((∃ shown, e.diagnostic (some text) = .ok shown) ↔ e.column ≤ Layout.widest + 1 ∧
      ∀ note ∈ e.notes, ∀ span ∈ note.span, span.start.column ≤ Layout.widest + 1) ∧
    ∀ failure, e.diagnostic (some text) = .error failure →
      ∃ column, Layout.widest + 1 < column ∧ failure = .tooWide column := by
  obtain ⟨line, hline⟩ := (raised_of_error h).exists_line
  have hshown := (raised_of_error h).laysOut_diagnostic hline
  exact ⟨hshown.ok_iff, fun failure => hshown.eq_tooWide⟩

/-- A list that is never closed, on a line that is short enough. -/
theorem diagnostic_ok_iff_unclosed : ∃ text e, text = "\x7b a(b:\r\n [1, 2" ∧
    Document.parse text = .error e ∧ e.column = 7 ∧
      ∃ shown, e.diagnostic (some text) = .ok shown := by
  have herror : (Document.parse "\x7b a(b:\r\n [1, 2").map (fun _ => ()) =
      .error ((SyntaxError.unexpected "EOF" (.emptyAt ⟨2, 7, 14⟩)
        (.unclosedDelimiter "[")).withNote
          (.pointing "list opened here" ⟨⟨2, 2, 9⟩, ⟨2, 3, 10⟩⟩)) := by
    decide +kernel
  cases hparse : Document.parse "\x7b a(b:\r\n [1, 2" with
  | ok d =>
    rw [hparse] at herror
    cases herror
  | error e =>
    have hok := (diagnostic_ok_iff (.inl hparse)).1
    rw [hparse] at herror
    cases herror
    refine ⟨_, _, rfl, hparse, rfl, hok.mpr ⟨by decide, ?_⟩⟩
    intro note hnote span hspan
    obtain rfl := List.mem_singleton.mp hnote
    cases hspan
    decide

/-- Far to the right on a long line, there is no diagnostic. -/
theorem no_diagnostic_of_long_line : ∃ text e,
    text = String.ofList (List.replicate 65536 ' ' ++ ['}']) ∧ Document.parse text = .error e ∧
      ¬ ∃ shown, e.diagnostic (some text) = .ok shown := by
  obtain ⟨e, hcolumn, he⟩ := exists_column_of_blanks 65536
  refine ⟨_, e, rfl, he, fun hok => ?_⟩
  have hraised := raised_of_error (.inl he)
  obtain ⟨line, hline⟩ := hraised.exists_line
  have hfits := (hraised.laysOut_diagnostic hline).ok_iff.mp hok
  rw [Fits, hcolumn] at hfits
  exact absurd hfits.1 (by decide)

/-- **Diagnostics point at the text that they are about.** -/
theorem diagnostic_points (h : Document.parse text = .error e ∨ TypeRef.parse text = .error e ∨
    Value.parse text = .error e) (hmark : Lexical.byteOrderMark ∉ text.toList)
    (hcolumn : e.column ≤ Layout.widest + 1)
    (hnotes : ∀ note ∈ e.notes, ∀ span ∈ note.span, span.start.column ≤ Layout.widest + 1) :
    ∃ line below carets,
      Text.line? e.line text.toList = some line ∧
      Text.lineAt? e.span.start.byteOffset text.toList = some line ∧
      Text.dropBytes? (e.column - 1) line = some below ∧
      ((e.AtEnd text ∧ below = [] ∧ carets = 1) ∨
        e.Names text ∧ e.found.toList.takeWhile Text.inLine <+: below ∧
          carets = if e.found.toList.all Text.inLine then Text.byteLength e.found.toList
            else 1) ∧
      (∀ note ∈ e.notes, ∀ span ∈ note.span, ∃ line below c,
        Text.line? span.start.line text.toList = some line ∧
        Text.lineAt? span.start.byteOffset text.toList = some line ∧
        Text.dropBytes? (span.start.column - 1) line = some (c :: below) ∧
        (c = '(' ∨ c = '[' ∨ c = '{')) ∧
      e.diagnostic (some text) = .ok ("error: " ++ e.message ++ "\n  --> " ++ e.location ++ "\n"
        ++ e.span.excerpt line carets ++ String.join (e.notes.map (Note.shown text))) := by
  have hraised := raised_of_error h
  obtain ⟨line, below, hline, hdrop, hbelow⟩ := hraised.below hmark
  have hshown := hraised.laysOut_diagnostic hline
  refine ⟨line, below, e.span.carets e.found, hline.1, hline.2, hdrop, ?_, ?_,
    hshown.eq_ok ⟨hcolumn, hnotes⟩⟩
  · obtain ⟨hplace, -⟩ := (refused_of_error h).atEnd_or_names
    refine hplace.imp (fun hend => ?_) fun hnames => ?_
    · have hempty : e.span.isEmpty = true := by
        rw [Span.isEmpty, hend.1]
        exact decide_eq_true (Nat.le_refl _)
      obtain ⟨-, rfl⟩ | ⟨hne, -⟩ := hbelow
      · exact ⟨hend, rfl, if_neg (by simp [hempty])⟩
      · exact absurd (hempty.symm.trans hne) (by decide)
    · have hempty := Span.isEmpty_of_lt hnames.1
      obtain ⟨hne, -⟩ | ⟨-, hfound⟩ := hbelow
      · exact absurd (hne.symm.trans hempty) (by decide)
      · refine ⟨hnames, hfound, ?_⟩
        simp only [Span.carets, hempty, true_and]
  · intro note hnote span hspan
    obtain ⟨line, below, c, hline, hdrop, hc⟩ := hraised.note_below hmark hnote hspan
    exact ⟨line, below, c, hline.1, hline.2, hdrop, hc⟩

/-- The end of a text, behind a character of two bytes and below the bracket that is open. -/
theorem diagnostic_points_unclosed : ∃ text e line below carets,
    text = "\x7b a(b:\r\n [\"é\", 2" ∧ Document.parse text = .error e ∧ e.AtEnd text ∧
      Text.line? e.line text.toList = some line ∧
      Text.dropBytes? (e.column - 1) line = some below ∧
      (∀ note ∈ e.notes, ∀ span ∈ note.span, span.start = ⟨2, 2, 9⟩) ∧
      e.diagnostic (some text) = .ok ("error: " ++ e.message ++ "\n  --> " ++ e.location ++ "\n"
        ++ e.span.excerpt line carets ++ String.join (e.notes.map (Note.shown text))) := by
  have herror : (Document.parse "\x7b a(b:\r\n [\"é\", 2").map (fun _ => ()) =
      .error ((SyntaxError.unexpected "EOF" (.emptyAt ⟨2, 10, 17⟩)
        (.unclosedDelimiter "[")).withNote
          (.pointing "list opened here" ⟨⟨2, 2, 9⟩, ⟨2, 3, 10⟩⟩)) := by
    decide +kernel
  cases hparse : Document.parse "\x7b a(b:\r\n [\"é\", 2" with
  | ok d =>
    rw [hparse] at herror
    cases herror
  | error e =>
    have hpoints := diagnostic_points (.inl hparse) (by decide)
    rw [hparse] at herror
    cases herror
    have hstart : ∀ note ∈ [Note.pointing "list opened here" ⟨⟨2, 2, 9⟩, ⟨2, 3, 10⟩⟩],
        ∀ span ∈ note.span, span.start = ⟨2, 2, 9⟩ := by
      intro note hnote span hspan
      obtain rfl := List.mem_singleton.mp hnote
      cases hspan
      rfl
    obtain ⟨line, below, carets, hline, -, hdrop, -, -, hshown⟩ := hpoints (by decide)
      fun note hnote span hspan => by
        rw [hstart note hnote span hspan]
        decide
    exact ⟨_, _, line, below, carets, rfl, hparse, ⟨rfl, rfl, rfl⟩, hline, hdrop, hstart, hshown⟩

end SyntaxError

end GraphQLSyntax
