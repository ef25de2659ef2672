import GraphQLSyntax.Proofs.Grammar.Broken.Document

/-!
# Errors name the text that they refuse

Where a text is refused, the run on it has read how some items begin, and the error starts where the
run stops.

* `Item.Stops.readUpTo`: what a run goes past until it stops.
* `SyntaxError.names_refused`: what an error shows of a text, and where.
-/

namespace GraphQLSyntax

variable {text : String} {e : SyntaxError}

/-- A run has gone past the text up to where an error starts, and has read some pieces on the way.
The notes of the error point back at these. -/
theorem Item.Stops.readUpTo {sets : Bool} {items : List Item}
    (h : Item.Stops e sets (.ofText text) items) : ∃ t pieces, Item.ReadUpTo text items t ∧
      t.text <+: text.toList ∧ e.span.start = t.position ∧ e.PointsBack pieces ∧
      ∀ p ∈ pieces, p.ReadOn t := by
  obtain ⟨pieces, k, hbegun, hlaid, ⟨⟨u, hu, hstart⟩, -⟩, hpoints⟩ := h.begun
  obtain ⟨hk, hall⟩ := hlaid.past (.start text)
  have hpast := hu.past hk
  refine ⟨_, pieces, ⟨pieces, k, u, hbegun, hlaid, hu, rfl⟩, ⟨_, hpast.text_eq.symm⟩, ?_, hpoints,
    fun p hp => (hall p hp).append u⟩
  rw [hstart, hpast.position_eq]
  rfl

namespace SyntaxError

/-- **Errors name the text that they refuse.** A text is refused with an error that starts where the
run on it stops, at the position counted from what the run has gone past. The error is about the end
of the text, or names the text at its span. Its message and its cause tell of that text, and its
path is only what it is given. -/
theorem names_refused (h : Document.parse text = .error e ∨ TypeRef.parse text = .error e ∨
    Value.parse text = .error e) :
    (∃ items t, e.Refuses text items ∧ Item.ReadUpTo text items t ∧ t.text <+: text.toList ∧
        e.span.start = t.position) ∧
      (e.AtEnd text ∨ e.Names text) ∧
      (e.cause ≠ .invalidSyntax → e.message = "unexpected \"" ++ e.found ++ "\"") ∧
      (∀ expected found, e.cause = .unexpectedToken expected found → found = e.found) ∧
      (∀ expected, e.cause = .unexpectedEnd expected → e.AtEnd text) ∧
      e.path = none ∧ e.PathOnly := by
  have hrefused := refused_of_error h
  obtain ⟨hplace, hending⟩ := hrefused.atEnd_or_names
  obtain ⟨-, s, -, -, -, he⟩ := hrefused
  obtain ⟨items, hitems, hstops⟩ := stops_of_error h
  obtain ⟨t, -, hread, htext, hstart, -⟩ := hstops.readUpTo
  exact ⟨⟨items, t, hitems, hread, htext, hstart⟩, hplace, he.message, he.token, hending, he.path,
    e.pathOnly⟩

/-- A character that starts no lexeme, behind a byte order mark that does not count. -/
theorem names_refused_character : ∃ text e,
    text = "\x7b a\r\n\ufeffé \x7d" ∧ Document.parse text = .error e ∧
      e.span = ⟨⟨2, 1, 8⟩, ⟨2, 3, 10⟩⟩ ∧
      (∃ items t, e.Refuses text items ∧ Item.ReadUpTo text items t ∧ e.span.start = t.position) ∧
      (e.AtEnd text ∨ e.Names text) ∧ e.path = none := by
  have herror : (Document.parse "\x7b a\r\n\ufeffé \x7d").map (fun _ => ()) =
      .error (.unexpected "é" ⟨⟨2, 1, 8⟩, ⟨2, 3, 10⟩⟩ .unreadable) := by
    decide +kernel
  cases hparse : Document.parse "\x7b a\r\n\ufeffé \x7d" with
  | ok d =>
    rw [hparse] at herror
    cases herror
  | error e =>
    obtain ⟨⟨items, t, hitems, hread, -, hstart⟩, hplace, -, -, -, hpath, -⟩ :=
      names_refused (.inl hparse)
    rw [hparse] at herror
    cases herror
    exact ⟨_, _, rfl, hparse, rfl, ⟨items, t, hitems, hread, hstart⟩, hplace, hpath⟩

end SyntaxError

end GraphQLSyntax
