import GraphQLSyntax.Proofs.Grammar.LeftOpen
import GraphQLSyntax.Proofs.Grammar.Refused

/-!
# Where readings stop

A reading that ends in an error has read how some items begin. The error comes up behind what it has
read, and if it is about delimiters, it is about what the items leave open there.

* `SyntaxError.PointsBack`: the notes of an error point at brackets that were read.
* `SyntaxError.Plain`: an error that comes up somewhere and is not about delimiters.
* `Item.Stops`: the reading of some items ends in an error. `Item.Stops.prepend`,
  `Item.Stops.append` and `Item.Stops.of_form` put more items around these.
-/

namespace GraphQLSyntax

/-! ## Errors -/

namespace SyntaxError

/-- The notes of an error that comes up behind `pieces` point at brackets among these, or at one that
the error itself is about. -/
def PointsBack (e : SyntaxError) (pieces : List Piece) : Prop :=
  ∀ note ∈ e.notes, ∀ span ∈ note.span,
    (∃ p ∈ pieces, p.terminal.IsOpening ∧ p.span = span) ∨
      e.found.toList.head? = some '{' ∧ span = ⟨e.span.start, e.span.start.shiftRight 1⟩

theorem PointsBack.error (s : Scanner) (cause : Cause) (pieces : List Piece) :
    (s.error cause).PointsBack pieces := by
  simp [PointsBack]

/-- A note is added to an error. -/
theorem PointsBack.withNote {e : SyntaxError} {pieces : List Piece} {note : Note}
    (h : e.PointsBack pieces) (hnote : ∀ span ∈ note.span,
      (∃ p ∈ pieces, p.terminal.IsOpening ∧ p.span = span) ∨
        e.found.toList.head? = some '{' ∧ span = ⟨e.span.start, e.span.start.shiftRight 1⟩) :
    (e.withNote note).PointsBack pieces := by
  unfold PointsBack
  rw [notes_withNote, List.forall_mem_append, List.forall_mem_singleton]
  exact ⟨h, hnote⟩

/-- A note points at a bracket. -/
theorem PointsBack.withPointing {e : SyntaxError} {pieces : List Piece} {p : Piece}
    (h : e.PointsBack pieces) (hp : p ∈ pieces) (hopening : p.terminal.IsOpening)
    (message : String) : (e.withNote (.pointing message p.span)).PointsBack pieces := by
  refine h.withNote ?_
  rintro span ⟨⟩
  exact .inl ⟨p, hp, hopening, rfl⟩

/-- An error comes up where `k` is left, and it is not about delimiters. -/
structure Plain (e : SyntaxError) (k : Cursor) : Prop where
  comesUp : e.ComesUp k
  not_ofDelimiters : ¬ e.OfDelimiters
  notes : ∀ note ∈ e.notes, note.span = none

variable {e : SyntaxError} {k : Cursor}

theorem ComesUp.of_start (h : e.span.start = k.skipTrivia.position)
    (hread : e.cause = .unreadable → k.ahead ≠ .eof) : e.ComesUp k :=
  ⟨⟨_, .lexeme, by rw [k.passAll_trivia, h]⟩, hread⟩

/-- The next lexeme is refused, for a cause that has nothing to do with delimiters. -/
theorem Plain.error {cause : Cause} (h : ∀ delimiter, cause ≠ .unclosedDelimiter delimiter)
    (h' : ∀ construct, cause ≠ .emptyConstruct construct)
    (hread : cause = .unreadable → k.ahead ≠ .eof) :
    ((Scanner.ofCursor k.skipTrivia).error cause).Plain k := by
  refine ⟨.of_start (Scanner.failureSpan_start _) hread, ?_, by simp⟩
  rintro (⟨delimiter, hcause⟩ | ⟨construct, hcause⟩)
  · exact h delimiter hcause
  · exact h' construct hcause

theorem Plain.withNote {note : Note} (h : e.Plain k) (hnote : note.span = none) :
    (e.withNote note).Plain k := by
  refine ⟨⟨h.comesUp.start_at, h.comesUp.ahead_ne⟩, h.not_ofDelimiters, ?_⟩
  rw [notes_withNote, List.forall_mem_append, List.forall_mem_singleton]
  exact ⟨h.notes, hnote⟩

theorem Plain.unexpected (expected : List String) :
    ((Scanner.ofCursor k.skipTrivia).unexpected expected).Plain k := by
  refine (Plain.error ?_ ?_ fun hcause heof => ?_).withNote rfl
  · intro delimiter hcause
    split at hcause <;> cases hcause
  · intro construct hcause
    split at hcause <;> cases hcause
  · split at hcause
    · cases hcause
    · rename_i hunknown
      exact absurd (hunknown.symm.trans heof) (by decide)
    · cases hcause

/-- Where no name touches a sigil, what follows the sigil is refused. -/
theorem Plain.nameless {kind : Lexeme} {c : Char} (hc : c = '$' ∨ c = '@')
    (hlaid : (Terminal.lexeme kind (String.singleton c)).LaidAt k) (expected : List String) :
    ((Scanner.ofCursor k.skipTrivia).failHere.unexpected expected).Plain k := by
  have hrest : k.skipTrivia.rest =
      c :: (k.behind (.lexeme kind (String.singleton c))).rest := by
    rw [hlaid.rest_eq, Terminal.chars_single]
    rfl
  have hstart : ((Scanner.ofCursor k.skipTrivia).failHere.unexpected expected).span.start =
      (k.passAll (Trail.trivia false k.rest ++ [.read c])).position := by
    rw [Cursor.passAll_append, k.passAll_trivia]
    show (Scanner.failureSpan _).start = _
    rw [Scanner.failureSpan_start, Scanner.failHere, hlaid.scanner_eq, Cursor.behind,
      Terminal.chars_single]
    rfl
  refine ⟨⟨⟨_, .sigil hc hrest, hstart⟩, fun _ heof => ?_⟩, ?_,
    by simp [Scanner.unexpected, Note.general]⟩
  · rw [Lexical.classify_eof_iff.mp heof] at hrest
    cases hrest
  · rintro (⟨_, ⟨⟩⟩ | ⟨_, ⟨⟩⟩)

theorem Plain.tooDeep (delimiter : String) :
    (Scanner.tooDeep delimiter (Scanner.ofCursor k.skipTrivia).span).Plain k :=
  ⟨.of_start rfl nofun, by rintro (⟨_, ⟨⟩⟩ | ⟨_, ⟨⟩⟩), fun _ hnote => absurd hnote List.not_mem_nil⟩

end SyntaxError

/-! ## Items -/

/-- From a cursor on, the reading of some items ends in an error. What it has read by then is how
the items begin. Where the error is about delimiters, they break off there. -/
structure Item.Stops (e : SyntaxError) (sets : Bool) (k : Cursor) (items : List Item) : Prop where
  begun : ∃ pieces k', Item.Begun .reading items pieces ∧ Laid k pieces k' ∧ e.ComesUp k' ∧
    e.PointsBack pieces
  breaksOff : e.OfDelimiters → Item.BreaksOff e sets k items

namespace Item.Stops

variable {e : SyntaxError} {sets : Bool} {k k' : Cursor} {items front : List Item}
  {before : List Piece}

theorem of_plain (h : e.Plain k) (items : List Item) : Stops e sets k items :=
  ⟨⟨[], k, .nothing _ _, rfl, h.comesUp, fun note hnote span hspan => by
    rw [h.notes note hnote] at hspan
    cases hspan⟩, fun hof => absurd hof h.not_ofDelimiters⟩

theorem mono {sets' : Bool} (h : Stops e sets k items) (hsets : sets = true → sets' = true) :
    Stops e sets' k items := ⟨h.begun, fun hof => (h.breaksOff hof).mono hsets⟩

/-- What is to come does not matter. -/
theorem append (h : Stops e sets k items) (more : List Item) : Stops e sets k (items ++ more) := by
  obtain ⟨pieces, k', hbegun, hlaid, hcomes, hpoints⟩ := h.begun
  exact ⟨⟨pieces, k', hbegun.append more, hlaid, hcomes, hpoints⟩,
    fun hof => (h.breaksOff hof).append more⟩

/-- What stands before is read. -/
theorem prepend (h : Stops e sets k' items) (hfront : Item.Spelled .reading front before)
    (hlaid : Laid k before k') : Stops e sets k (front ++ items) := by
  obtain ⟨pieces, k'', hbegun, hlaid', hcomes, hpoints⟩ := h.begun
  refine ⟨⟨before ++ pieces, k'', hbegun.prepend hfront, hlaid.append hlaid', hcomes, ?_⟩,
    fun hof => (h.breaksOff hof).prepend hfront hlaid⟩
  intro note hnote span hspan
  refine (hpoints note hnote span hspan).imp_left ?_
  rintro ⟨p, hp, hopening, rfl⟩
  exact ⟨p, List.mem_append_right before hp, hopening, rfl⟩

/-- What is read is followed by what is refused. -/
theorem behind (hfront : Item.Spelled .reading front before) (hlaid : Laid k before k')
    (h : e.Plain k') : Stops e sets k front := by
  have hnothing : Stops e sets k' [] := .of_plain h []
  have hstops := hnothing.prepend hfront hlaid
  rwa [List.append_nil] at hstops

/-- The reading of a node ends where the reading of its items does. -/
theorem of_form {n : Node} (hform : n.Form .reading items)
    (h : Stops e (!n.isDefinition) k items) : Stops e sets k [.part (.node n)] := by
  obtain ⟨pieces, k', hbegun, hlaid, hcomes, hpoints⟩ := h.begun
  exact ⟨⟨pieces, k', .of_form hform hbegun, hlaid, hcomes, hpoints⟩,
    fun hof => .of_form hform (h.breaksOff hof)⟩

end Item.Stops

end GraphQLSyntax
