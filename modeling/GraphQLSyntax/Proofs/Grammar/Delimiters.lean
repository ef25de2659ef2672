import GraphQLSyntax.Proofs.Grammar.Broken.Document
import GraphQLSyntax.Proofs.Grammar.Placed

/-!
# Delimiters that are never closed

An error about a delimiter has a note, which points at where the delimiter was opened. That is the
innermost thing that the text leaves open. A selection set that selects nothing is refused where it
is closed, and its note points at where it was opened.

* `Node.LeftEmpty.between`: what stands between two braces that nothing stands between.
* `SyntaxError.delimiters_pointed`: what such errors point at.
-/

namespace GraphQLSyntax

theorem Terminal.IsOpening.byteLength {t : Terminal} (h : t.IsOpening) :
    Text.byteLength t.chars = 1 := by
  rcases h with rfl | rfl | rfl <;> decide

/-- Between two pieces there is a gap. -/
theorem Laid.between {text : String} {k k' : Cursor} {p q : Piece} (h : Laid k [p, q] k')
    (hk : k.Reaches text) : ∃ front gap behind,
      text.toList = front ++ (p.chars ++ (gap ++ (q.chars ++ behind))) ∧
      Gap gap (q.chars ++ behind) ∧ p.span.start.byteOffset = Text.byteLength front ∧
      q.span.start.byteOffset = Text.byteLength (front ++ (p.chars ++ gap)) := by
  obtain ⟨hp, hpspan, hq, hqspan, -⟩ := h
  obtain ⟨front, htext, hfront⟩ := hk.skipTrivia
  obtain ⟨gap, hrest, hgap, -, hoffset⟩ := (k.behind p.terminal).gap_skipTrivia
  rw [hq.rest_eq] at hrest hgap
  refine ⟨front, gap, _, ?_, hgap, ?_, ?_⟩
  · rw [htext, hp.rest_eq, hrest]
    rfl
  · rw [hpspan]
    exact hfront
  · rw [hqspan]
    show (k.behind p.terminal).skipTrivia.position.byteOffset = _
    rw [hoffset, Cursor.behind, Cursor.byteOffset_consume, hfront]
    simp only [Text.byteLength_append, Piece.chars]
    omega

/-- Nothing but a gap stands between braces that have nothing between them. -/
theorem Node.LeftEmpty.between {text : String} {n : Node} {before within : List Piece}
    {opener closer : Piece} {k : Cursor} (h : n.LeftEmpty .reading within opener closer)
    (hlaid : Laid (.ofText text) (before ++ within) k) :
    opener.span.Covers text ['{'] ∧ closer.span.Covers text ['}'] ∧
      ∃ front gap behind, text.toList = front ++ '{' :: (gap ++ '}' :: behind) ∧
        Gap gap ('}' :: behind) ∧ opener.span.start.byteOffset = Text.byteLength front ∧
        closer.span.start.byteOffset = Text.byteLength (front ++ '{' :: gap) := by
  have hcovers := hlaid.covers_of_mem (Cursor.reaches_ofText text)
  obtain ⟨items, -, hfront, hopener, hcloser⟩ := h
  rw [← List.append_assoc] at hlaid
  obtain ⟨k₁, hbefore, hbraces⟩ := Laid.append_iff.mp hlaid
  have hbetween := hbraces.between (hbefore.reaches (Cursor.reaches_ofText text))
  have hopenerCovers := hcovers opener (by simp)
  have hcloserCovers := hcovers closer (by simp)
  have hopen : opener.chars = ['{'] := congrArg Terminal.chars hopener
  have hclose : closer.chars = ['}'] := congrArg Terminal.chars hcloser
  rw [hopen] at hopenerCovers hbetween
  rw [hclose] at hcloserCovers hbetween
  exact ⟨hopenerCovers, hcloserCovers, hbetween⟩

namespace SyntaxError

variable {text : String} {e : SyntaxError}

/-- Reading `text` as `items` stopped where nothing that `opener` does not open was left open
behind it. -/
def LeftOpenIn (text : String) (items : List Item) (opener : Piece) : Prop :=
  ∃ before n within k, Item.Enter .reading items before n ∧ Laid (.ofText text) (before ++ within) k ∧
    n.LeftOpen .reading within opener k.rest

/-- Reading `text` as `items` stopped at `closer`, in front of which a selection opens its braces at
`opener`. -/
def LeftEmptyIn (text : String) (items : List Item) (opener closer : Piece) : Prop :=
  ∃ before s within k, Item.Enter .reading items before (.selection s) ∧
    Laid (.ofText text) (before ++ within) k ∧
    (Node.selection s).LeftEmpty .reading within opener closer ∧
    ∀ name directives span, s ≠ .fragmentSpread name directives span

/-- **Errors about delimiters point at what is left open.** -/
theorem delimiters_pointed (h : Document.parse text = .error e ∨ TypeRef.parse text = .error e ∨
    Value.parse text = .error e) :
    (∀ delimiter, e.cause = .unclosedDelimiter delimiter → ∃ items opener message,
      e.Refuses text items ∧ LeftOpenIn text items opener ∧
      e.notes = [.pointing message opener.span] ∧ opener.span.Covers text delimiter.toList ∧
      opener.span.stop.byteOffset = opener.span.start.byteOffset + 1 ∧
      opener.span.start.byteOffset ≤ e.span.start.byteOffset) ∧
    (∀ construct, e.cause = .emptyConstruct construct → ∃ items opener closer message others,
      e.Refuses text items ∧ LeftEmptyIn text items opener closer ∧
      e.notes = .pointing message opener.span :: others ∧ e.span = closer.span ∧
      opener.span.Covers text ['{'] ∧ closer.span.Covers text ['}'] ∧
      ∃ front gap behind, text.toList = front ++ '{' :: (gap ++ '}' :: behind) ∧
        Gap gap ('}' :: behind) ∧ opener.span.start.byteOffset = Text.byteLength front ∧
        closer.span.start.byteOffset = Text.byteLength (front ++ '{' :: gap)) := by
  constructor
  · intro delimiter hcause
    obtain ⟨items, hitems, hstops⟩ := stops_of_error h
    obtain ⟨before, n, within, k, henter, hlaid, ⟨opener, hopen, he⟩ | ⟨-, opener, closer, -, he⟩⟩ :=
      (hstops.breaksOff (.inl ⟨_, hcause⟩)).inside_node hitems.isNode
    · obtain ⟨hmem, hopening⟩ := hopen.isOpening
      obtain ⟨message, hnotes⟩ := he.notes_eq
      obtain rfl : String.ofList opener.chars = delimiter := by
        rw [he.cause_eq] at hcause
        exact Cause.unclosedDelimiter.inj hcause
      have hopener := List.mem_append_right before hmem
      refine ⟨items, opener, message, hitems, ⟨before, n, within, k, henter, hlaid, hopen⟩, hnotes,
        ?_, ?_, he.start_le⟩
      · rw [String.toList_ofList]
        exact hlaid.covers_of_mem (Cursor.reaches_ofText text) opener hopener
      · rw [hlaid.stop_of_mem opener hopener, Piece.chars, hopening.byteLength]
    · obtain ⟨construct, hcause'⟩ := he.cause_eq
      rw [hcause] at hcause'
      cases hcause'
  · intro construct hcause
    obtain ⟨items, hitems, hstops⟩ := stops_of_error h
    obtain ⟨before, n, within, k, henter, hlaid, ⟨opener, -, he⟩ | ⟨hn, opener, closer, hempty, he⟩⟩ :=
      (hstops.breaksOff (.inr ⟨_, hcause⟩)).inside_node hitems.isNode
    · rw [he.cause_eq] at hcause
      cases hcause
    · obtain ⟨s, rfl, hs⟩ := hempty.selection hn
      obtain ⟨message, others, hnotes⟩ := he.notes_eq
      obtain ⟨hopenerCovers, hcloserCovers, hbetween⟩ := hempty.between hlaid
      exact ⟨items, opener, closer, message, others, hitems, ⟨before, s, within, k, henter, hlaid,
        hempty, hs⟩, hnotes, he.span_eq, hopenerCovers, hcloserCovers, hbetween⟩

/-- The outer one of two lists is left open, behind an object literal and the inner list. -/
theorem delimiters_pointed_list : ∃ text e items opener, text = "\x7b a(x: [\x7bb: 1\x7d, [2]" ∧
    Document.parse text = .error e ∧ e.cause = .unclosedDelimiter "[" ∧ e.Refuses text items ∧
    LeftOpenIn text items opener ∧ opener.span = ⟨⟨1, 8, 7⟩, ⟨1, 9, 8⟩⟩ := by
  have herror : (Document.parse "\x7b a(x: [\x7bb: 1\x7d, [2]").map (fun _ => ()) =
      .error ((SyntaxError.unexpected "EOF" (.emptyAt ⟨1, 20, 19⟩) (.unclosedDelimiter "[")).withNote
        (.pointing "list opened here" ⟨⟨1, 8, 7⟩, ⟨1, 9, 8⟩⟩)) := by
    decide +kernel
  cases hparse : Document.parse "\x7b a(x: [\x7bb: 1\x7d, [2]" with
  | ok d =>
    rw [hparse] at herror
    cases herror
  | error e =>
    obtain ⟨hunclosed, -⟩ := delimiters_pointed (.inl hparse)
    rw [hparse] at herror
    obtain rfl := Except.error.inj herror
    obtain ⟨items, opener, message, hitems, hopen, hnotes, -⟩ := hunclosed "[" rfl
    obtain ⟨hnote, -⟩ := List.cons.inj hnotes
    exact ⟨_, _, items, opener, rfl, hparse, rfl, hitems, hopen,
      (Option.some.inj (congrArg Note.span hnote)).symm⟩

end SyntaxError

end GraphQLSyntax
