import GraphQLSyntax.Proofs.Grammar.Scans
import GraphQLSyntax.Proofs.Grammar.Tracked
import GraphQLSyntax.Proofs.Lexical.OneByte
import GraphQLSyntax.SyntaxError.Diagnostic

/-!
# Errors name the text that they refuse

* `Reading.Reached`: steps of the scanner lead to where a reader stands.
* `SyntaxError.Refused`: an error is about a lexeme that such steps lead to.
* `Reader.Scans.leads`: whatever comes of a reader, steps of the scanner lead there.
* `SyntaxError.AtEnd`, `SyntaxError.Names`: what an error shows of a text.
-/

namespace GraphQLSyntax

variable {text : String} {t u : Trail}

/-! ## Lexemes in a text -/

namespace Scanner

variable {s : Scanner} {k : Cursor} {e : SyntaxError}

theorem Tracked.reaches (h : s.Tracked text t) : s.cursor.Reaches text := h.past.reaches

/-- The text of the current lexeme stands in `text`, from the start of the lexeme up to the
cursor. -/
def Holds (text : String) (s : Scanner) : Prop :=
  ∃ k : Cursor, k.Reaches text ∧ s.start = k.position ∧ k.rest = s.text ++ s.cursor.rest ∧
    s.cursor.position.byteOffset = k.position.byteOffset + Text.byteLength s.text ∧
    (s.lexeme = .eof → s.text = [] ∧ s.cursor.rest = [])

theorem holds_ofCursor (h : k.Reaches text) : (ofCursor k).Holds text := by
  have htaken := List.prefix_iff_eq_append.mp (Lexical.classify_isPrefix k.rest)
  refine ⟨k, h, rfl, ?_, Cursor.byteOffset_consume _ _, fun heof => ?_⟩
  · rw [ofCursor, Cursor.rest_consume, htaken]
  · have hrest : k.rest = [] := Lexical.classify_eof_iff.mp heof
    rw [ofCursor, Cursor.rest_consume, hrest]
    exact ⟨rfl, rfl⟩

theorem holds_failHere (h : s.cursor.Reaches text) : s.failHere.Holds text :=
  ⟨s.cursor, h, rfl, rfl, rfl, by rintro ⟨⟩⟩

theorem holds_objectLiteral (h : s.Holds text) (hknown : s.objectLiteral.lexeme ≠ .eof) :
    s.objectLiteral.Holds text := by
  obtain ⟨k, hk, hstart, hrest, hoffset, -⟩ := h
  have htaken := List.prefix_iff_eq_append.mp (Lexical.braced_isPrefix 0 s.cursor.rest)
  refine ⟨k, hk, hstart, ?_, ?_, fun heof => absurd heof hknown⟩
  · rw [objectLiteral, List.append_assoc, Cursor.rest_consume, htaken, hrest]
  · rw [objectLiteral, Cursor.byteOffset_consume, hoffset, Text.byteLength_append, Nat.add_assoc]

/-- The error where an object literal breaks off is about the literal. -/
theorem refuses_object (s : Scanner) (note : Note) :
    s.Refuses ((s.error (if s.cursor.rest = [] then .unclosedDelimiter "\x7b"
      else .unreadable)).withNote note) := by
  refine (Refuses.error ?_ ?_).withNote note
  · intro expected found hcause
    split at hcause <;> cases hcause
  · intro expected hcause
    split at hcause <;> cases hcause

/-- The bracket that closes no list is the character at the cursor. -/
theorem refuses_closing (h : s.cursor.rest.head? = some ']') :
    s.failHere.Refuses (s.failHere.error (.unexpectedToken ["!"] "]")) := by
  refine .error ?_ (by rintro _ ⟨⟩)
  rintro _ _ ⟨⟩
  obtain ⟨rest, hrest⟩ := List.head?_eq_some_iff.mp h
  exact (failure_of_char (s := s.failHere) rfl hrest).1.symm

/-- Where no name touches a sigil, the failure is behind the sigil. -/
theorem sigilName_eq_failHere (h : s.sigilName.lexeme ≠ .name) : s.sigilName = s.failHere := by
  unfold sigilName at h ⊢
  cases hrest : s.cursor.rest with
  | nil => rfl
  | cons c cs =>
    rw [hrest] at h
    dsimp only at h ⊢
    by_cases hc : Lexical.isNameStart c
    · rw [if_pos hc] at h
      exact absurd rfl h
    · rw [if_neg hc]

theorem failureSpan_start (s : Scanner) : s.failureSpan.start = s.start := by
  unfold failureSpan
  split <;> rfl

@[simp] theorem notes_error (s : Scanner) (cause : Cause) : (s.error cause).notes = [] := rfl

/-- What a failure shows is nothing at the end of the text, or what stands at its span. -/
theorem Holds.failure (h : s.Holds text) :
    (s.failureSpan = .emptyAt s.start ∧ s.start.byteOffset = Text.byteLength text.toList ∧
        s.failureText = "EOF") ∨
      (s.failureSpan.start.byteOffset < s.failureSpan.stop.byteOffset ∧ s.lexeme ≠ .eof ∧
        Text.slice? text s.failureSpan.start.byteOffset s.failureSpan.stop.byteOffset =
          some s.failureText) := by
  obtain ⟨k, hk, hstart, hrest, hoffset, heof⟩ := h
  cases htext : s.text with
  | nil =>
    cases hcursor : s.cursor.rest with
    | nil =>
      left
      obtain ⟨hfound, hspan⟩ := failure_of_end htext hcursor
      have hend := hk.byteLength_rest
      rw [hrest, htext, hcursor] at hend
      refine ⟨hspan, ?_, hfound⟩
      rw [hstart, ← hend]
      rfl
    | cons c cs =>
      right
      obtain ⟨hfound, hspan⟩ := failure_of_char htext hcursor
      rw [htext, hcursor, List.nil_append] at hrest
      have hbetween : k.rest =
          [c] ++ (⟨cs, k.position.shiftRight c.utf8Size, false⟩ : Cursor).rest := hrest
      have hslice := hk.slice hbetween rfl
      rw [hspan, hfound, hstart]
      refine ⟨?_, fun h => ?_, hslice⟩
      · have := c.utf8Size_pos
        dsimp only [Position.shiftRight]
        omega
      · rw [hcursor] at heof
        cases (heof h).2
  | cons c cs =>
    right
    have hslice := hk.slice hrest hoffset
    have hne : s.text ≠ [] := by simp [htext]
    have hpos := Text.byteLength_pos hne
    obtain ⟨hfound, hspan⟩ := failure_of_text hne
    rw [hspan, hfound, span, hstart]
    refine ⟨?_, fun h => ?_, hslice⟩
    · dsimp only
      omega
    · rw [htext] at heof
      cases (heof h).1

end Scanner

@[simp] theorem SyntaxError.notes_withNote (e : SyntaxError) (note : Note) :
    (e.withNote note).notes = e.notes ++ [note] := rfl

theorem utf8Size_of_isMark {c : Char} (h : IsMark c) : c.utf8Size = 1 := by
  rcases h with rfl | rfl | rfl <;> rfl

/-- The characters around the name of a type are single bytes. -/
theorem utf8Size_of_mark_or_ignorable {c : Char} (h : Lexical.isIgnorable c ∨ IsMark c) :
    c.utf8Size = 1 := h.elim (Lexical.OneByte.isIgnorable c) utf8Size_of_isMark

/-- Steps over the opening brackets of a type. -/
theorem Scanner.Reached.openings (h : Scanner.Reached text t s) :
    Scanner.Reached text (t ++ (Lexical.openings s.cursor.rest).map Passed.read)
      { s with cursor := s.cursor.consume (Lexical.openings s.cursor.rest) } :=
  h.bytes (List.takeWhile_prefix _) fun _ hc =>
    utf8Size_of_mark_or_ignorable ((Lexical.mem_openings hc).imp_right .inl)

/-- Steps over the closing brackets and the marks of a type. -/
theorem Scanner.Reached.closings (h : Scanner.Reached text t s) (lists : Nat) :
    Scanner.Reached text (t ++ (Lexical.closings lists s.cursor.rest).map Passed.read)
      { s with cursor := s.cursor.consume (Lexical.closings lists s.cursor.rest) } :=
  h.bytes (Lexical.closings_isPrefix _ _) fun _ hc =>
    utf8Size_of_mark_or_ignorable ((Lexical.mem_closings hc).imp_right .inr)

/-! ## Where readers get -/

/-- Steps of the scanner lead to where a reader stands, which is at a lexeme. -/
structure Reading.Reached (text : String) (t : Trail) (r : Reading) : Prop where
  scanner : Scanner.Reached text t r.scanner
  lexeme : ∃ k : Cursor, k.Reaches text ∧ r.scanner = .ofCursor k

/-- The text of a lexeme stands where the lexeme does. -/
theorem Reading.Reached.holds {r : Reading} (h : r.Reached text t) : r.scanner.Holds text := by
  obtain ⟨k, hk, hscanner⟩ := h.lexeme
  rw [hscanner]
  exact Scanner.holds_ofCursor hk

/-- An error is about a lexeme that steps of the scanner lead to, from the end of a trail on. -/
def SyntaxError.Refused (text : String) (t : Trail) (e : SyntaxError) : Prop :=
  ∃ (u : Trail) (s : Scanner),
    t <+: u ∧ Scanner.Reached text u s ∧ s.Holds text ∧ s.Refuses e

/-- Steps of the scanner lead to what came of a reader, from the end of a trail on. -/
def Reader.Leads {α : Type} (text : String) (t : Trail) : Except SyntaxError (α × Reading) → Prop
  | .ok (_, r) => ∃ u, t <+: u ∧ r.Reached text u
  | .error e => e.Refused text t

namespace Reader

variable {α β : Type} {r : Reading}

namespace Leads

theorem mono {x : Except SyntaxError (α × Reading)} (h : Leads text u x) (htu : t <+: u) :
    Leads text t x := by
  cases x with
  | error e =>
    obtain ⟨v, s, huv, hs⟩ := h
    exact ⟨v, s, htu.trans huv, hs⟩
  | ok q =>
    obtain ⟨v, huv, hv⟩ := h
    exact ⟨v, htu.trans huv, hv⟩

theorem bind {p : Reader α} {f : α → Reader β} (hp : Leads text t (p r))
    (hf : ∀ a r' u, p r = .ok (a, r') → r'.Reached text u → Leads text u (f a r')) :
    Leads text t ((p >>= f) r) := by
  rw [bind_apply]
  cases hq : p r with
  | error e =>
    rw [hq] at hp
    exact hp
  | ok q =>
    rw [hq] at hp
    obtain ⟨u, htu, hu⟩ := hp
    exact (hf q.1 q.2 u hq hu).mono htu

theorem pure {a : α} (h : r.Reached text t) : Leads text t ((Pure.pure a : Reader α) r) :=
  ⟨t, List.prefix_refl t, h⟩

theorem refused {s : Scanner} {e : SyntaxError} (hs : Scanner.Reached text t s)
    (hholds : s.Holds text) (he : s.Refuses e) :
    Leads (α := α) text t (.error e) := ⟨t, s, List.prefix_refl t, hs, hholds, he⟩

theorem fail {error : Scanner → SyntaxError} (h : r.Reached text t)
    (he : r.scanner.Refuses (error r.scanner)) :
    Leads text t ((Reader.fail error : Reader α) r) := refused h.scanner h.holds he

theorem sees {P : Scanner → Prop} {see : Scanner → Except SyntaxError β} {e : SyntaxError}
    (h : r.Reached text t) (hsee : Scanner.Sees P see) (hP : P r.scanner)
    (he : see r.scanner = .error e) : Leads (α := α) text t (.error e) := by
  obtain ⟨k, hk, hscanner⟩ := h.lexeme
  refine refused h.scanner h.holds ?_
  rw [hscanner] at hP he ⊢
  exact hsee.refuses k e hP he

theorem peek {P : Scanner → Prop} {see : Scanner → Except SyntaxError α} (h : r.Reached text t)
    (hsee : Scanner.Sees P see) (hP : P r.scanner) : Leads text t (Reader.peek see r) := by
  unfold Reader.peek
  cases hs : see r.scanner with
  | error e => exact sees h hsee hP hs
  | ok a => exact pure h

theorem advanceAfter (h : Scanner.Reached text t r.scanner) (stop : Position) :
    Leads text t (Reader.advanceAfter stop r) := by
  have hnext := h.advancePastComments
  have hreaches := h.tracked.reaches.skipTrivia
  unfold Reader.advanceAfter
  rw [Scanner.advancePastComments_eq] at hnext ⊢
  dsimp only
  split
  · exact (refused hnext (Scanner.holds_ofCursor hreaches)
      (.error (by rintro _ _ ⟨⟩) (by rintro _ ⟨⟩))).mono (List.prefix_append _ _)
  · exact ⟨_, List.prefix_append _ _, hnext, _, hreaches, rfl⟩

theorem advance (h : Scanner.Reached text t r.scanner) : Leads text t (Reader.advance r) :=
  advanceAfter h _

theorem take (h : Scanner.Reached text t r.scanner) : Leads text t (Reader.take r) := by
  unfold Reader.take
  rw [token_bind]
  exact (advance h).bind fun _ _ _ _ hu => pure hu

theorem sigilName (h : r.Reached text t) (sigil : Lexeme) (expected : List String)
    (what : String) : Leads text t (Reader.sigilName sigil expected what r) := by
  unfold Reader.sigilName
  split
  · have hname := h.scanner.sigilName
    dsimp only
    split
    · exact (take (r := { r with scanner := r.scanner.sigilName }) hname).mono
        (List.prefix_append _ _)
    · rename_i hne
      rw [Scanner.sigilName_eq_failHere hne]
      exact refused h.scanner.failHere (Scanner.holds_failHere h.scanner.tracked.reaches)
        (.unexpected _)
  · exact fail h (.unexpected _)

theorem spreadDots (h : r.Reached text t) : Leads text t (Reader.spreadDots r) := by
  unfold Reader.spreadDots
  split
  · split
    · rename_i s hs
      exact (advance (r := { r with scanner := s }) (h.scanner.spreadTail hs)).mono
        (List.prefix_append _ _)
    · exact fail h (.unexpected _)
  · exact fail h (.unexpected _)

theorem object (h : r.Reached text t) : Leads text t (Reader.object r) := by
  have hobject := h.scanner.objectLiteral
  unfold Reader.object
  dsimp only
  split
  · rename_i hunknown
    have hholds := Scanner.holds_objectLiteral h.holds (by rw [hunknown]; decide)
    exact (refused hobject hholds (Scanner.refuses_object _ _)).mono (List.prefix_append _ _)
  · exact ((take (r := { r with scanner := r.scanner.objectLiteral }) hobject).bind
      fun _ _ _ _ hu => pure hu).mono (List.prefix_append _ _)

theorem openings (h : r.Reached text t) : Leads text t (Reader.openings r) := by
  unfold Reader.openings
  rw [lexeme_bind]
  split
  · rename_i hopen
    rw [cursor_bind]
    split
    · obtain ⟨k, hk, hscanner⟩ := h.lexeme
      refine fail h ?_
      rw [hscanner] at hopen ⊢
      exact .tooManyLists hopen
    · have hbytes := h.scanner.openings
      refine mono (u := t ++ (Lexical.openings r.scanner.cursor.rest).map Passed.read) ?_
        (List.prefix_append _ _)
      exact (advance (r := { r with scanner.cursor := _ }) hbytes).bind fun _ _ _ _ hu => pure hu
  · exact pure h

/-- What comes of the brackets behind a name is known behind them. -/
theorem closings (h : r.Reached text t) (lists : Nat) (opener : Span) :
    Leads text (t ++ (Lexical.closings lists r.scanner.cursor.rest).map Passed.read)
      (Reader.closings lists opener r) := by
  have hbytes := h.scanner.closings lists
  have hholds := Scanner.holds_failHere hbytes.tracked.reaches
  unfold Reader.closings
  rw [cursor_bind, skipText_bind, cursor_bind]
  split
  · exact refused hbytes.failHere hholds (Scanner.refuses_closing (by assumption))
  · split
    · exact refused hbytes.failHere hholds (.unclosed _ _ _)
    · exact (advanceAfter (r := { r with scanner.cursor := _ }) hbytes _).bind
        fun _ _ _ _ hu => pure hu

theorem spanned {part : Reader (Span → α)} (h : Leads text t (part r)) :
    Leads text t (Reader.spanned part r) := by
  unfold Reader.spanned
  cases hpart : part r with
  | error e =>
    rw [hpart] at h
    exact h
  | ok q =>
    rw [hpart] at h
    exact h

/-- Repeating a part leads where the last of its readings leads. -/
theorem repeatWhile {item : Production α} {more : Scanner → Except SyntaxError Bool}
    (h : r.Reached text t) (hmore : Scanner.Sees (fun _ => True) more)
    (hitem : ∀ (t : Trail) (r : Reading), r.Reached text t → Leads text t (item.read r)) :
    Leads text t (item.repeatWhile more r) := by
  unfold Production.repeatWhile
  dsimp only
  fun_induction Production.collect item more r generalizing t with
  | case1 r e he => exact sees h hmore trivial he
  | case2 r he => exact ⟨t, List.prefix_refl t, h⟩
  | case3 r he e hread =>
    have := hitem t r h
    rw [hread] at this
    exact this
  | case4 r he a r₁ hread hlt items ending heq ih =>
    have hfirst := hitem t r h
    rw [hread] at hfirst
    obtain ⟨u, htu, hu⟩ := hfirst
    have hrest := (ih hu).mono htu
    rw [heq] at hrest
    cases ending with
    | error e => exact hrest
    | ok r' => exact hrest

end Leads

/-- **Whatever comes of a reader, steps of the scanner lead there.** -/
theorem Scans.leads {p : Reader α} {P : Scanner → Prop} (h : p.Scans P) (hr : r.Reached text t)
    (hP : P r.scanner) : Leads text t (p r) := by
  induction h generalizing t r with
  | pure a => exact .pure hr
  | peek hsee => exact .peek hr hsee hP
  | @peekBind _ _ _ see _ hsee _ ih =>
    rw [bind_apply, Reader.peek]
    cases hs : see r.scanner with
    | error e => exact .sees hr hsee hP hs
    | ok a => exact ih a hr ⟨hP, hs⟩
  | bind _ _ ihp ihf => exact (ihp hr hP).bind fun a r' u _ hu => ihf a hu trivial
  | advance => exact .advance hr.scanner
  | spanned _ ih => exact .spanned (ih hr hP)
  | repeatWhile hmore _ ih => exact .repeatWhile hr hmore fun t r hr => ih hr trivial
  | sigilName sigil expected what => exact .sigilName hr sigil expected what
  | spreadDots => exact .spreadDots hr
  | object => exact .object hr
  | openings => exact .openings hr
  | closings lists opener => exact (Leads.closings hr lists opener).mono (List.prefix_append _ _)

/-- What is read from the start of a text on is led to from there. -/
theorem leads_of_start {p : Reader α} (h : p.Scans fun _ => True) :
    Leads text [] ((advance >>= fun _ => p) (.ofText text)) :=
  (Leads.advance .start).bind fun _ _ _ _ hu => h.leads hu trivial

end Reader

/-! ## Errors -/

namespace SyntaxError

variable {e : SyntaxError}

/-- A text is refused for a lexeme that steps of the scanner lead to. -/
theorem refused_of_error (h : Document.parse text = .error e ∨ TypeRef.parse text = .error e ∨
    Value.parse text = .error e) : e.Refused text [] := by
  have hread {α β : Type} {p : Reader α} {f : α × Reading → β} (hp : p.Scans fun _ => True)
      (he : ((Reader.advance >>= fun _ => p) (.ofText text)).map f = .error e) :
      e.Refused text [] := by
    have hleads : Reader.Leads text [] ((Reader.advance >>= fun _ => p) (.ofText text)) :=
      Reader.leads_of_start hp
    cases hr : (Reader.advance >>= fun _ => p) (.ofText text) with
    | error e' =>
      rw [hr] at he hleads
      cases he
      exact hleads
    | ok q =>
      rw [hr] at he
      cases he
  rcases h with h | h | h
  · rw [Document.parse_eq] at h
    exact hread Reader.scans_definitions h
  · exact hread (Reader.scans_toEnd Reader.scans_typeRef) h
  · exact hread (Reader.scans_toEnd Reader.scans_value) h

/-- An error is about the end of a text. -/
def AtEnd (text : String) (e : SyntaxError) : Prop :=
  e.span.start = e.span.stop ∧ e.span.start.byteOffset = Text.byteLength text.toList ∧
    e.found = "EOF"

/-- An error names the text at its span. -/
def Names (text : String) (e : SyntaxError) : Prop :=
  e.span.start.byteOffset < e.span.stop.byteOffset ∧
    Text.slice? text e.span.start.byteOffset e.span.stop.byteOffset = some e.found

/-- Nothing of an error depends on its path but the path itself, and how it is shown. -/
structure PathOnly (e : SyntaxError) : Prop where
  inFile : ∀ path, (e.inFile path).path = some path ∧ { e.inFile path with path := e.path } = e
  summary : ∃ tail, e.summary = e.path.getD "<input>" ++ tail ∧
    ∀ path, (e.inFile path).summary = path ++ tail
  diagnostic : ∀ source, ∃ (front : String) (behind : Except Layout.Failure String),
    e.diagnostic source = behind.map (fun tail => front ++ e.path.getD "<input>" ++ tail) ∧
      ∀ path, (e.inFile path).diagnostic source = behind.map fun tail => front ++ path ++ tail

/-- What a diagnostic shows behind the path. -/
def behindPath (e : SyntaxError) (source : Option String) : Except Layout.Failure String := do
  let snippet ← match source with
    | some text => e.snippet text
    | none => .ok ""
  let notes ← e.notes.mapM (Note.render source)
  return ":" ++ e.span.start.render ++ "\n" ++ snippet ++ String.join notes

theorem diagnostic_eq (e : SyntaxError) (source : Option String) :
    e.diagnostic source = (e.behindPath source).map fun tail =>
      "error: " ++ e.message ++ "\n  --> " ++ e.path.getD "<input>" ++ tail := by
  cases hnotes : e.notes.mapM (Note.render source) <;> cases source with
  | none => simp [diagnostic, behindPath, location, hnotes, bind, Except.bind, pure, Except.pure,
      Except.map, String.append_assoc]
  | some text =>
    cases hsnippet : e.snippet text <;>
      simp [diagnostic, behindPath, location, hnotes, hsnippet, bind, Except.bind, pure,
        Except.pure, Except.map, String.append_assoc]

theorem pathOnly (e : SyntaxError) : e.PathOnly := by
  refine ⟨fun path => ⟨rfl, rfl⟩, ?_, fun source => ?_⟩
  · refine ⟨":" ++ e.span.start.render ++ ": error: " ++ e.message, ?_, fun path => ?_⟩
    · simp [summary, location, String.append_assoc]
    · simp [summary, location, inFile, String.append_assoc]
  · exact ⟨_, e.behindPath source, e.diagnostic_eq source,
      fun path => (e.inFile path).diagnostic_eq source⟩

theorem Refused.atEnd_or_names (h : e.Refused text t) :
    (e.AtEnd text ∨ e.Names text) ∧
      ∀ expected, e.cause = .unexpectedEnd expected → e.AtEnd text := by
  obtain ⟨u, s, -, -, hholds, he⟩ := h
  rcases hholds.failure with ⟨hspan, hstart, htext⟩ | ⟨hlt, hne, hslice⟩
  · have hend : e.AtEnd text := by
      rw [AtEnd, he.span, he.found, hspan]
      exact ⟨rfl, hstart, htext⟩
    exact ⟨.inl hend, fun _ _ => hend⟩
  · rw [← he.span] at hlt hslice
    rw [← he.found] at hslice
    exact ⟨.inr ⟨hlt, hslice⟩, fun _ hcause => absurd (he.ending _ hcause) hne⟩

end SyntaxError

end GraphQLSyntax
