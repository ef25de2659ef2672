import GraphQLSyntax.Proofs.Bytewise.Lexeme
import GraphQLSyntax.Proofs.Scan.Reached

/-!
# Scanners that go on byte by byte

A scanner may hold offsets in place of texts. It takes the text of a lexeme from between two of them,
which needs both to be in the text, in order, and between two characters.

* `ByteScanner`: a scanner in offsets.
* `ByteScanner.Reached`: steps lead to it from the start of a text.
* `ByteScanner.Mirrors`: it holds the lexeme that a scanner holds.
* `ByteScanner.Reached.mirrors`: every step leads to where a scanner gets with the same step.
* `ByteScanner.in_range_of_reached`: so all offsets stay in range, and every text is there.
-/

namespace GraphQLSyntax

/-- The lexeme scanned last, by offsets: where it starts and stops, and where its text starts. The
text of a name behind a sigil leaves out the sigil that it starts at. -/
structure ByteScanner where
  cursor : ByteCursor
  lexeme : Lexeme
  start : Position
  stop : Position
  textStart : Nat
  finished : Bool
deriving DecidableEq, Repr, Inhabited

namespace ByteScanner

/-- The scanner before the first lexeme. -/
def ofText (text : String) : ByteScanner := ⟨.ofText text, .unknown, .start, .start, 0, false⟩

/-! ## The current lexeme -/

/-- The text between two offsets. There is none where they are out of range or inside a character. -/
def slice (s : ByteScanner) (i j : Nat) : String := (Text.slice? s.cursor.source i j).getD ""

/-- The character behind an offset. -/
def charAt? (s : ByteScanner) (i : Nat) : Option Char :=
  (Text.dropBytes? i s.cursor.source.toList).bind List.head?

/-- The text of the current lexeme. -/
def currentText (s : ByteScanner) : String := s.slice s.textStart s.stop.byteOffset

/-- The current lexeme as a token. -/
def token (s : ByteScanner) : Token := .plain s.lexeme s.currentText ⟨s.start, s.stop⟩

/-- What a failure at the current lexeme shows: what has been gone past from the start of its text
on, or the next character, or `EOF` where nothing is left. -/
def failureText (s : ByteScanner) : String :=
  if s.textStart < s.cursor.offset then s.slice s.textStart s.cursor.offset
  else
    match s.charAt? s.textStart with
    | some c => s.slice s.textStart (s.textStart + c.utf8Size)
    | none => "EOF"

/-- The stretch of text that `failureText` covers. -/
def failureSpan (s : ByteScanner) : Span :=
  if s.textStart < s.cursor.offset then ⟨s.start, s.cursor.position⟩
  else
    match s.charAt? s.textStart with
    | some c => ⟨s.start, s.start.shiftRight c.utf8Size⟩
    | none => .emptyAt s.start

/-! ## Steps -/

/-- A lexeme starts at the cursor. -/
def beginLexeme (s : ByteScanner) : ByteScanner :=
  let p := s.cursor.position
  { s with start := p, stop := p, textStart := p.byteOffset }

/-- The lexeme ends at the cursor. -/
def finishLexeme (s : ByteScanner) (lexeme : Lexeme) : ByteScanner :=
  { s with lexeme, stop := s.cursor.position }

/-- The scanner with a failure marked at the cursor. -/
def failHere (s : ByteScanner) : ByteScanner := s.beginLexeme.finishLexeme .unknown

/-- The scanner at the next lexeme, comments included. -/
def advance (s : ByteScanner) : ByteScanner :=
  let s := { s with cursor := s.cursor.skipIgnorables }.beginLexeme
  let (lexeme, cursor) := s.cursor.scanLexeme
  { s with cursor }.finishLexeme lexeme

theorem length_advance_lt {s : ByteScanner} (h : s.advance.lexeme = .comment) :
    s.advance.cursor.left.length < s.cursor.left.length :=
  Nat.lt_of_lt_of_le (ByteCursor.length_left_scanLexeme_lt h)
    (ByteCursor.length_left_skipIgnorables_le s.cursor)

/-- The scanner at the next lexeme that is no comment. -/
def advancePastComments (s : ByteScanner) : ByteScanner :=
  if s.advance.lexeme = .comment then s.advance.advancePastComments else s.advance
termination_by s.cursor.left.length
decreasing_by
  rename_i h
  exact length_advance_lt h

/-- The next token, and the scanner behind it. There is none after the end of input, or after text
that fits no kind. -/
def next (s : ByteScanner) : Option (Token × ByteScanner) :=
  if s.finished then none
  else
    let s := s.advance
    match s.lexeme with
    | .eof => some (s.token, { s with finished := true })
    | .unknown => some (.plain .unknown s.failureText s.failureSpan, { s with finished := true })
    | _ => some (s.token, s)

/-- The scanner at the name that touches the current sigil, or failing behind the sigil. -/
def sigilName (s : ByteScanner) : ByteScanner :=
  if s.cursor.next Lexical.isNameStart then
    let (lexeme, cursor) := s.cursor.scanName
    { s with cursor, textStart := s.cursor.offset }.finishLexeme lexeme
  else s.failHere

/-- Whether exactly two dots follow the current one, and the scanner behind them if so. -/
def spreadTail (s : ByteScanner) : Bool × ByteScanner :=
  if s.cursor.nth? 0 = some '.' ∧ s.cursor.nth? 1 = some '.' ∧ s.cursor.nth? 2 ≠ some '.' then
    let s := { s with cursor := s.cursor.consumeByte.consumeByte }
    (true, { s with stop := s.cursor.position })
  else (false, s)

/-- The scanner at the object literal that the current brace opens. -/
def objectLiteral (s : ByteScanner) : ByteScanner :=
  let (lexeme, cursor) := s.cursor.scanObject 0
  { s with cursor }.finishLexeme lexeme

/-- Steps lead to a scanner from the start of `text`, in any order. A lexeme is gone on with right
behind it. A single byte is gone past where it is a character, as those around a type are. -/
inductive Reached (text : String) : ByteScanner → Prop where
  | start : Reached text (.ofText text)
  | advance {s : ByteScanner} (h : Reached text s) : Reached text s.advance
  | advancePastComments {s : ByteScanner} (h : Reached text s) : Reached text s.advancePastComments
  | next {s behind : ByteScanner} {token : Token} (h : Reached text s)
    (hnext : s.next = some (token, behind)) : Reached text behind
  | sigilName {s : ByteScanner} (h : Reached text s) : Reached text s.sigilName
  | spreadTail {s : ByteScanner} (h : Reached text s) (hbehind : s.stop = s.cursor.position) :
    Reached text s.spreadTail.2
  | objectLiteral {s : ByteScanner} (h : Reached text s) (hbehind : s.stop = s.cursor.position) :
    Reached text s.objectLiteral
  | failHere {s : ByteScanner} (h : Reached text s) : Reached text s.failHere
  | byte {s : ByteScanner} {b : Char} (h : Reached text s) (hpeek : s.cursor.peek? = some b)
    (hb : b.utf8Size = 1) : Reached text { s with cursor := s.cursor.consumeByte }

/-! ## Scanners in offsets and in texts -/

/-- A scanner in offsets holds the lexeme that a scanner of `text` holds: its offsets are those
between which the text of that lexeme stands. -/
structure Mirrors (text : String) (s : ByteScanner) (t : Scanner) : Prop where
  cursor : s.cursor.At text t.cursor
  lexeme_eq : s.lexeme = t.lexeme
  start_eq : s.start = t.start
  start_at : Text.IsBoundary text s.start.byteOffset
  start_le : s.start.byteOffset ≤ s.textStart
  text_at : Text.Between text s.textStart s.stop.byteOffset t.text
  stop_le : s.stop.byteOffset ≤ s.cursor.offset

variable {text : String} {s s' : ByteScanner} {t t' : Scanner}

/-- A lexeme that bytes are read as from `k` on, where a scanner reads the same from `c` on. -/
theorem mirrors_of_reads {k : ByteCursor} {c : Cursor} {x : Lexeme × ByteCursor}
    {y : Lexeme × List Char} (start : Position) (finished : Bool) (hk : k.At text c)
    (hreads : ByteCursor.Reads text c x y) (htaken : y.2 <+: c.rest)
    (hstart : Text.IsBoundary text start.byteOffset) (hle : start.byteOffset ≤ k.offset) :
    Mirrors text ⟨x.2, x.1, start, x.2.position, k.offset, finished⟩
      ⟨c.consume y.2, y.1, start, y.2⟩ where
  cursor := hreads.2
  lexeme_eq := hreads.1
  start_eq := rfl
  start_at := hstart
  start_le := hle
  text_at := by
    rw [hk.offset_eq, hreads.2.position_eq]
    exact .of_reaches hk.reaches htaken
  stop_le := Nat.le_refl _

namespace Mirrors

theorem start (text : String) : (ofText text).Mirrors text (.ofText text) :=
  ⟨.ofText text, rfl, rfl, .zero text, Nat.le_refl _, .nil (.zero text), Nat.le_refl _⟩

theorem advance (h : s.Mirrors text t) : s.advance.Mirrors text t.advance := by
  have hskip := h.cursor.skipIgnorables
  have hstart : s.advance = ⟨s.cursor.skipIgnorables.scanLexeme.2,
      s.cursor.skipIgnorables.scanLexeme.1, t.cursor.skipGap.position,
      s.cursor.skipIgnorables.scanLexeme.2.position, s.cursor.skipIgnorables.offset, s.finished⟩ := by
    rw [← hskip.position_eq]
    rfl
  rw [hstart]
  exact mirrors_of_reads _ _ hskip hskip.scanLexeme (Lexical.classify_isPrefix _)
    (.of_reaches hskip.reaches) (Nat.le_of_eq hskip.offset_eq.symm)

theorem advancePastComments (h : s.Mirrors text t) :
    s.advancePastComments.Mirrors text t.advancePastComments := by
  fun_induction ByteScanner.advancePastComments s generalizing t with
  | case1 s hcomment ih =>
    rw [Scanner.advancePastComments, if_pos (h.advance.lexeme_eq ▸ hcomment)]
    exact ih h.advance
  | case2 s hcomment =>
    rw [Scanner.advancePastComments, if_neg (h.advance.lexeme_eq ▸ hcomment)]
    exact h.advance

theorem failHere (h : s.Mirrors text t) : s.failHere.Mirrors text t.failHere := by
  have hstart : s.failHere = ⟨s.cursor, .unknown, t.cursor.position, s.cursor.position,
      s.cursor.offset, s.finished⟩ := by
    rw [← h.cursor.position_eq]
    rfl
  rw [hstart]
  exact mirrors_of_reads _ _ h.cursor (.here _ h.cursor) List.nil_prefix
    (.of_reaches h.cursor.reaches) (Nat.le_of_eq h.cursor.offset_eq.symm)

/-- The lexeme of a scanner starts where it stands at the latest. -/
theorem start_le_offset (h : s.Mirrors text t) : s.start.byteOffset ≤ s.cursor.offset :=
  Nat.le_trans h.start_le (Nat.le_trans h.text_at.le h.stop_le)

theorem sigilName (h : s.Mirrors text t) : s.sigilName.Mirrors text t.sigilName := by
  unfold ByteScanner.sigilName Scanner.sigilName
  rw [h.cursor.next_eq .isNameStart]
  cases hrest : t.cursor.rest with
  | nil => exact h.failHere
  | cons c cs =>
    dsimp only
    by_cases hc : Lexical.isNameStart c
    · rw [if_pos (show (c :: cs).head?.any Lexical.isNameStart from hc), if_pos hc,
        List.takeWhile_cons_of_pos (Lexical.isNamePart_of_isNameStart hc)]
      have hname : c :: cs.takeWhile Lexical.isNamePart <+: t.cursor.rest := by
        rw [hrest]
        exact List.cons_prefix_cons.mpr ⟨rfl, List.takeWhile_prefix _⟩
      have hmirrors := mirrors_of_reads s.start s.finished h.cursor (h.cursor.scanName hrest hc) hname
        h.start_at h.start_le_offset
      rw [← h.start_eq]
      exact hmirrors
    · rw [if_neg (show ¬(c :: cs).head?.any Lexical.isNameStart from hc), if_neg hc]
      exact h.failHere

/-- A lexeme that is gone on with behind what has been read of it. -/
theorem more (h : s.Mirrors text t) (hbehind : s.stop = s.cursor.position)
    {x : Lexeme × ByteCursor} {y : Lexeme × List Char} (hreads : ByteCursor.Reads text t.cursor x y)
    (htaken : y.2 <+: t.cursor.rest) :
    Mirrors text { s with cursor := x.2, lexeme := x.1, stop := x.2.position }
      ⟨t.cursor.consume y.2, y.1, t.start, t.text ++ y.2⟩ where
  cursor := hreads.2
  lexeme_eq := hreads.1
  start_eq := h.start_eq
  start_at := h.start_at
  start_le := h.start_le
  text_at := by
    have hmore : Text.Between text s.stop.byteOffset x.2.position.byteOffset y.2 := by
      rw [hbehind, h.cursor.position_eq, hreads.2.position_eq]
      exact .of_reaches h.cursor.reaches htaken
    exact h.text_at.append hmore
  stop_le := Nat.le_refl _

theorem objectLiteral (h : s.Mirrors text t) (hbehind : s.stop = s.cursor.position) :
    s.objectLiteral.Mirrors text t.objectLiteral :=
  h.more hbehind (h.cursor.scanObject rfl) (Lexical.braced_isPrefix 0 _)

theorem spreadTail (h : s.Mirrors text t) (hbehind : s.stop = s.cursor.position) :
    (s.spreadTail = (false, s) ∧ t.spreadTail? = none) ∨
      ∃ s' t', s.spreadTail = (true, s') ∧ t.spreadTail? = some t' ∧ s'.Mirrors text t' := by
  unfold ByteScanner.spreadTail
  split
  · rename_i hdots
    obtain ⟨rest, hrest, hend⟩ := h.cursor.dots_iff.mp hdots
    have hfirst := (h.cursor.byte hrest rfl).2
    have hsecond := (hfirst.byte (Cursor.rest_step_of_cons hrest) rfl).2
    have hreads : ByteCursor.Reads text t.cursor (s.lexeme, s.cursor.consumeByte.consumeByte)
        (t.lexeme, ['.', '.']) := ⟨h.lexeme_eq, hsecond⟩
    exact .inr ⟨_, _, rfl, Scanner.spreadTail?_eq_some.mpr ⟨rest, hrest, hend, rfl⟩,
      h.more hbehind hreads ⟨rest, hrest.symm⟩⟩
  · rename_i hdots
    refine .inl ⟨rfl, Option.eq_none_iff_forall_ne_some.mpr fun t' ht' => ?_⟩
    obtain ⟨rest, hrest, hend, -⟩ := Scanner.spreadTail?_eq_some.mp ht'
    exact hdots (h.cursor.dots_iff.mpr ⟨rest, hrest, hend⟩)

theorem byte (h : s.Mirrors text t) {b : Char} (hpeek : s.cursor.peek? = some b)
    (hb : b.utf8Size = 1) :
    Mirrors text { s with cursor := s.cursor.consumeByte } { t with cursor := t.cursor.step b } := by
  obtain ⟨cs, hrest⟩ := List.head?_eq_some_iff.mp ((h.cursor.peek_iff hb).mp hpeek)
  have hnext := (h.cursor.byte hrest hb).2
  refine ⟨hnext, h.lexeme_eq, h.start_eq, h.start_at, h.start_le, h.text_at, ?_⟩
  have hle := h.stop_le
  rw [h.cursor.offset_eq] at hle
  show _ ≤ s.cursor.consumeByte.offset
  rw [hnext.offset_eq, Cursor.byteOffset_step]
  exact Nat.le_add_right_of_le hle

/-! ### What is shown -/

theorem currentText_eq (h : s.Mirrors text t) : s.currentText = String.ofList t.text := by
  unfold currentText slice
  rw [h.cursor.source_eq, h.text_at.slice, Option.getD_some]

/-- Right behind the lexeme, a failure shows the same. -/
theorem failure_eq (h : s.Mirrors text t) (hbehind : s.stop = s.cursor.position) :
    s.failureText = t.failureText ∧ s.failureSpan = t.failureSpan := by
  have hstop : s.stop.byteOffset = s.cursor.offset := congrArg Position.byteOffset hbehind
  have hbetween := h.text_at
  rw [hstop] at hbetween
  unfold ByteScanner.failureText ByteScanner.failureSpan
  by_cases hlt : s.textStart < s.cursor.offset
  · obtain ⟨hfound, hspan⟩ := Scanner.failure_of_text (hbetween.lt_iff.mp hlt)
    rw [if_pos hlt, if_pos hlt, hfound, hspan, Scanner.span, h.start_eq, h.cursor.position_eq,
      ← h.currentText_eq, currentText, hstop]
    exact ⟨rfl, rfl⟩
  · have hnil : t.text = [] := not_not.mp (mt hbetween.lt_iff.mpr hlt)
    have hstart : s.textStart = s.cursor.offset := Nat.le_antisymm hbetween.le (Nat.not_lt.mp hlt)
    have hchar : s.charAt? s.textStart = t.cursor.rest.head? := by
      rw [charAt?, h.cursor.source_eq, hstart, h.cursor.offset_eq, h.cursor.reaches.drop,
        Option.bind_some]
    rw [if_neg hlt, if_neg hlt, hchar]
    cases hrest : t.cursor.rest with
    | nil =>
      obtain ⟨hfound, hspan⟩ := Scanner.failure_of_end hnil hrest
      rw [hfound, hspan, h.start_eq]
      exact ⟨rfl, rfl⟩
    | cons c cs =>
      obtain ⟨hfound, hspan⟩ := Scanner.failure_of_char hnil hrest
      have htaken : [c] <+: t.cursor.rest := ⟨cs, hrest.symm⟩
      have hslice := (Text.Between.of_reaches h.cursor.reaches htaken).slice
      rw [Cursor.byteOffset_consume, ← h.cursor.offset_eq, ← hstart] at hslice
      rw [hfound, hspan, h.start_eq]
      refine ⟨?_, rfl⟩
      show (Text.slice? s.cursor.source _ _).getD "" = _
      rw [h.cursor.source_eq, String.singleton_eq_ofList]
      exact congrArg (Option.getD · "") hslice

theorem token_eq (h : s.Mirrors text t) (hbehind : s.stop = s.cursor.position) :
    s.token = t.token := by
  unfold ByteScanner.token Scanner.token Scanner.span
  rw [h.lexeme_eq, h.currentText_eq, h.start_eq, hbehind, h.cursor.position_eq]

theorem finish (h : s.Mirrors text t) (finished : Bool) : Mirrors text { s with finished } t :=
  { h with }

/-- The same tokens come next, and then the same scanners. -/
theorem next (h : s.Mirrors text t) {token : Token} (hnext : s.next = some (token, s')) :
    ∃ t', (⟨t, s.finished⟩ : TokenStream).next = some (token, ⟨t', s'.finished⟩) ∧
      s'.Mirrors text t' := by
  have hadvance := h.advance
  have hbehind : s.advance.stop = s.advance.cursor.position := rfl
  unfold ByteScanner.next at hnext
  split at hnext
  · cases hnext
  · rename_i hfinished
    rw [Bool.not_eq_true] at hfinished
    have hsame : s.advance.finished = false := hfinished
    rw [hfinished, TokenStream.next_unfinished]
    refine ⟨t.advance, ?_⟩
    dsimp only at hnext
    unfold Scanner.shown
    rw [← hadvance.lexeme_eq, ← hadvance.token_eq hbehind, ← (hadvance.failure_eq hbehind).1,
      ← (hadvance.failure_eq hbehind).2]
    split at hnext
    · rename_i heof
      cases hnext
      refine ⟨?_, hadvance.finish true⟩
      rw [heof]
      rfl
    · rename_i hunknown
      cases hnext
      refine ⟨?_, hadvance.finish true⟩
      rw [hunknown]
      rfl
    · rename_i heof hunknown
      cases hnext
      rw [if_neg hunknown, Lexeme.isControl_eq_false_iff.mpr ⟨heof, hunknown⟩, hsame]
      exact ⟨rfl, hadvance⟩

end Mirrors

/-- **Every step leads to where a scanner gets with the same step.** -/
theorem Reached.mirrors (h : s.Reached text) :
    ∃ trail t, Scanner.Reached text trail t ∧ s.Mirrors text t := by
  induction h with
  | start => exact ⟨_, _, .start, .start text⟩
  | advance _ ih =>
    obtain ⟨_, t, ht, h⟩ := ih
    exact ⟨_, _, ht.advance, h.advance⟩
  | advancePastComments _ ih =>
    obtain ⟨_, t, ht, h⟩ := ih
    exact ⟨_, _, ht.advancePastComments, h.advancePastComments⟩
  | next _ hnext ih =>
    obtain ⟨_, t, ht, h⟩ := ih
    obtain ⟨t', hnext', h'⟩ := h.next hnext
    exact ⟨_, _, ht.next hnext', h'⟩
  | sigilName _ ih =>
    obtain ⟨_, t, ht, h⟩ := ih
    exact ⟨_, _, ht.sigilName, h.sigilName⟩
  | spreadTail _ hbehind ih =>
    obtain ⟨_, t, ht, h⟩ := ih
    obtain ⟨heq, -⟩ | ⟨s', t', heq, hspread, h'⟩ := h.spreadTail hbehind
    · rw [heq]
      exact ⟨_, _, ht, h⟩
    · rw [heq]
      exact ⟨_, _, ht.spreadTail hspread, h'⟩
  | objectLiteral _ hbehind ih =>
    obtain ⟨_, t, ht, h⟩ := ih
    exact ⟨_, _, ht.objectLiteral, h.objectLiteral hbehind⟩
  | failHere _ ih =>
    obtain ⟨_, t, ht, h⟩ := ih
    exact ⟨_, _, ht.failHere, h.failHere⟩
  | byte _ hpeek hb ih =>
    obtain ⟨_, t, ht, h⟩ := ih
    exact ⟨_, _, ht.byte hb ((h.cursor.peek_iff hb).mp hpeek), h.byte hpeek hb⟩

end ByteScanner

/-! ## In range -/

/-- A cursor stands between two characters of `text`, and so does the start of its line, which is not
behind it. -/
structure ByteCursor.InRange (text : String) (k : ByteCursor) : Prop where
  lineStart_le : k.lineStart ≤ k.offset
  offset_le : k.offset ≤ Text.byteLength text.toList
  lineStart_at : Text.IsBoundary text k.lineStart
  offset_at : Text.IsBoundary text k.offset

theorem ByteCursor.At.inRange {text : String} {k : ByteCursor} {c : Cursor} (h : k.At text c) :
    k.InRange text := by
  have hoffset : Text.IsBoundary text k.offset := by
    rw [h.offset_eq]
    exact .of_reaches h.reaches
  exact ⟨h.lineStart_le, hoffset.le, h.lineStart_at, hoffset⟩

namespace ByteScanner

/-- All offsets of a scanner are in order, in range and between characters. So are those of its cursor
in front of the next lexeme, where the position of that is measured. -/
structure InRange (text : String) (s : ByteScanner) : Prop where
  cursor : s.cursor.InRange text
  ahead : s.cursor.skipIgnorables.InRange text
  start_le : s.start.byteOffset ≤ s.textStart
  textStart_le : s.textStart ≤ s.stop.byteOffset
  stop_le : s.stop.byteOffset ≤ s.cursor.offset
  start_at : Text.IsBoundary text s.start.byteOffset
  textStart_at : Text.IsBoundary text s.textStart
  stop_at : Text.IsBoundary text s.stop.byteOffset

/-- The texts that a scanner shows are there: what stands between two offsets, and the characters
behind one. -/
structure Sliced (text : String) (s : ByteScanner) : Prop where
  currentText : Text.slice? text s.textStart s.stop.byteOffset = some s.currentText
  charAt : ∃ behind, Text.dropBytes? s.textStart text.toList = some behind ∧
    s.charAt? s.textStart = behind.head?
  failureText : s.textStart < s.cursor.offset →
    Text.slice? text s.textStart s.cursor.offset = some s.failureText
  failureChar : ¬s.textStart < s.cursor.offset → ∀ c, s.charAt? s.textStart = some c →
    Text.slice? text s.textStart (s.textStart + c.utf8Size) = some s.failureText

variable {text : String} {s : ByteScanner} {t : Scanner}

theorem Mirrors.inRange (h : s.Mirrors text t) : s.InRange text :=
  ⟨h.cursor.inRange, h.cursor.skipIgnorables.inRange, h.start_le, h.text_at.le, h.stop_le, h.start_at,
    h.text_at.start_at, h.text_at.stop_at⟩

/-- Between two boundaries, a slice is what stands there. -/
theorem slice_eq (hsource : s.cursor.source = text) {i j : Nat} (hi : Text.IsBoundary text i)
    (hj : Text.IsBoundary text j) (hle : i ≤ j) : Text.slice? text i j = some (s.slice i j) := by
  obtain ⟨shown, hshown⟩ := hi.exists_slice hj hle
  rw [slice, hsource, hshown, Option.getD_some]

theorem InRange.sliced (h : s.InRange text) (hsource : s.cursor.source = text) : s.Sliced text := by
  obtain ⟨behind, hdrop, hchar⟩ := h.textStart_at.exists_drop
  have hcharAt : s.charAt? s.textStart = behind.head? := by
    rw [charAt?, hsource, hdrop, Option.bind_some]
  refine ⟨slice_eq hsource h.textStart_at h.stop_at h.textStart_le, ⟨behind, hdrop, hcharAt⟩, ?_, ?_⟩
  · intro hlt
    rw [ByteScanner.failureText, if_pos hlt]
    exact slice_eq hsource h.textStart_at h.cursor.offset_at (Nat.le_of_lt hlt)
  · intro hlt c hc
    rw [ByteScanner.failureText, if_neg hlt, hc]
    obtain ⟨cs, hbehind⟩ := List.head?_eq_some_iff.mp (hcharAt ▸ hc)
    exact slice_eq hsource h.textStart_at (hchar c cs hbehind) (Nat.le_add_right _ _)

/-- **A scanner stays in range.** Wherever steps lead, its offsets are in order, in range and between
characters, the texts that it shows are there, and it holds the lexeme that a scanner holds. -/
theorem in_range_of_reached (h : s.Reached text) :
    s.InRange text ∧ s.Sliced text ∧ ∃ trail t, Scanner.Reached text trail t ∧ s.Mirrors text t := by
  obtain ⟨trail, t, ht, hmirrors⟩ := h.mirrors
  exact ⟨hmirrors.inRange, hmirrors.inRange.sliced hmirrors.cursor.source_eq,
    trail, t, ht, hmirrors⟩

/-- So it does where a string breaks off behind a backslash in front of a longer character. -/
theorem in_range_of_broken_string : (ofText "\"é\\é").advance.lexeme = .unknown ∧
    (ofText "\"é\\é").advance.InRange "\"é\\é" := by
  have hlexeme := (Mirrors.start "\"é\\é").advance.lexeme_eq
  exact ⟨hlexeme.trans (by decide), (in_range_of_reached (Reached.start.advance)).1⟩

end ByteScanner

end GraphQLSyntax
