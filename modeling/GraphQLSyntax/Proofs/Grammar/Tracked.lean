import GraphQLSyntax.Proofs.Grammar.Placed
import GraphQLSyntax.Proofs.Grammar.Run

/-!
# The positions in a tree are counted from the text before them

* `Part.Tracked`: a part is spelled by pieces that are read on a trail.
* `Reader.Reads.tracked`, `Document.tracked_of_parse`: so is all that is in a text, on the trail of
  the run that reads it.
* `Scanner.positions_counted`: all positions of scanners, tokens and trees are counted from the
  text before them.
-/

namespace GraphQLSyntax

variable {text : String} {t : Trail}

/-! ## Parts -/

/-- A part is spelled by pieces that are read on a trail. -/
def Part.Tracked (t : Trail) (p : Part) : Prop :=
  ∃ pieces, p.Spelled .reading pieces ∧ ∀ q ∈ pieces, q.ReadOn t

/-- The parts among tracked items are tracked. -/
theorem Item.Spelled.tracked {items : List Item} {pieces : List Piece}
    (h : Item.Spelled .reading items pieces)
    (hpieces : ∀ q ∈ pieces, q.ReadOn t) :
    ∀ p ∈ items.filterMap Item.part?, p.Tracked t := by
  intro p hp
  obtain ⟨item, hmem, hitem⟩ := List.mem_filterMap.mp hp
  obtain rfl : item = .part p := by
    cases item <;> cases hitem
    rfl
  obtain ⟨before, ps, behind, rfl, hps⟩ := h.of_mem hmem
  exact ⟨ps, hps, fun q hq => hpieces q (by simp [hq])⟩

namespace Part.Tracked

variable {p q : Part}

theorem part (h : p.Tracked t) : ∀ q ∈ p.parts, q.Tracked t := by
  intro q hq
  obtain ⟨pieces, hspelled, hpieces⟩ := h
  cases hspelled with
  | token => cases hq
  | sigilName => cases hq
  | node hn hrule hitems hspan =>
    rw [parts, ← hrule.parts_eq] at hq
    exact hitems.tracked hpieces q hq

/-- A span runs from the first of the pieces that are read to the last. -/
theorem span_eq (h : p.Tracked t) : ∀ span ∈ p.span?, ∃ first last : Piece,
    first.ReadOn t ∧ last.ReadOn t ∧ span = ⟨first.span.start, last.span.stop⟩ := by
  intro span hmem
  obtain ⟨pieces, hspelled, hpieces⟩ := h
  have hcovers : Covers span pieces := by
    cases hspelled with
    | token _ _ hspan =>
      cases hmem
      exact hspan
    | sigilName _ _ _ hspan =>
      cases hmem
      exact hspan
    | node _ _ _ hspan => exact hspan span hmem
  obtain ⟨start, stop⟩ := span
  obtain ⟨hstart, hstop⟩ := hcovers
  obtain ⟨first, hfirst, rfl⟩ := Option.map_eq_some_iff.mp hstart
  obtain ⟨last, hlast, rfl⟩ := Option.map_eq_some_iff.mp hstop
  exact ⟨first, last, hpieces first (List.mem_of_head? hfirst),
    hpieces last (List.mem_of_getLast? hlast), rfl⟩

theorem span_at (h : p.Tracked t) : ∀ span ∈ p.span?, t.At span.start ∧ t.At span.stop := by
  intro span hmem
  obtain ⟨first, last, hfirst, hlast, rfl⟩ := h.span_eq span hmem
  exact ⟨hfirst.span_over.span_at.1, hlast.span_over.span_at.2⟩

theorem contains (h : p.Tracked t) (hq : p.Contains q) :
    ∀ span ∈ q.span?, t.At span.start ∧ t.At span.stop :=
  (Part.contains_induction (fun _ hp => hp.part) hq h).span_at

end Part.Tracked

/-! ## Whole texts -/

/-- A run that reads a text as a part comes by all that is in it. -/
theorem Reader.Reads.tracked {α : Type} {part : Reader α} {f : α → Part}
    (h : part.Reads fun a items _ => items = [.part (f a)]) {a : α} {r : Reading}
    (hr : whole part (.ofText text) = .ok (a, r)) :
    ∃ t, Item.ReadThrough text [.part (f a)] t ∧ t.text = text.toList ∧ (f a).Tracked t := by
  obtain ⟨-, hpart, heof⟩ := whole_eq_ok.mp hr
  obtain ⟨k, _, pieces, rfl, hlaid, hspelled, rfl⟩ := h _ a r hpart
  obtain ⟨t, hread, htext, -, hpieces⟩ :=
    hspelled.readThrough hlaid (Lexical.classify_eof_iff.mp heof)
  exact ⟨t, hread, htext, pieces, hspelled.of_single, hpieces⟩

/-- A run that reads a text as a document comes by all that is in it. -/
theorem Document.tracked_of_parse {d : Document} (h : Document.parse text = .ok d) :
    ∃ t, Item.ReadThrough text (d.definitions.map Definition.item) t ∧ t.text = text.toList ∧
      d.span.start = .start ∧ d.span.stop = t.position ∧ ∀ p ∈ d.parts, p.Tracked t := by
  obtain ⟨pieces, k, hspelled⟩ := spelled_of_parse h
  obtain ⟨t, hread, htext, hstop, hpieces⟩ :=
    hspelled.spelled.readThrough hspelled.laid hspelled.rest_eq
  refine ⟨t, hread, htext, ?_, ?_, fun p hp => ?_⟩
  · rw [hspelled.span_eq]
  · rw [hspelled.span_eq]
    exact hstop
  · rw [← parts_eq] at hp
    exact hspelled.spelled.tracked hpieces p hp

/-- **Positions are counted from the text before them.** Wherever the steps of a scanner lead, its
cursor stands at the position that the text it has gone past determines, and the current lexeme
runs between two such positions. So do the tokens of a listing. Everything in the tree of a text
that is accepted runs between positions on the trail of the run that reads the tree. -/
theorem Scanner.positions_counted (text : String) :
    (∀ (t : Trail) (s : Scanner), Reached text t s → text.toList = t.text ++ s.cursor.rest ∧
      s.cursor.position = t.position ∧ t.At s.span.start ∧ t.At s.span.stop ∧
      ∀ finished token behind, (⟨s, finished⟩ : TokenStream).next = some (token, behind) →
        ∃ u : Trail, t ++ s.trailAhead <+: u ∧ u.text <+: text.toList ∧
          u.At token.span.start ∧ u.At token.span.stop) ∧
    (∀ d, Document.parse text = .ok d →
      ∃ t, Item.ReadThrough text (d.definitions.map Definition.item) t ∧ t.text = text.toList ∧
        t.At d.span.start ∧ t.At d.span.stop ∧ ∀ p ∈ d.parts, ∀ q, p.Contains q →
          ∀ span ∈ q.span?, t.At span.start ∧ t.At span.stop) ∧
    (∀ x, TypeRef.parse text = .ok x →
      ∃ t, Item.ReadThrough text [x.item] t ∧ t.text = text.toList ∧
        ∀ q, (Part.node (.typeRef x)).Contains q →
          ∀ span ∈ q.span?, t.At span.start ∧ t.At span.stop) ∧
    (∀ v, Value.parse text = .ok v →
      ∃ t, Item.ReadThrough text [v.item] t ∧ t.text = text.toList ∧
        ∀ q, (Part.node (.value v)).Contains q →
          ∀ span ∈ q.span?, t.At span.start ∧ t.At span.stop) := by
  refine ⟨fun t s h => ?_, fun d h => ?_, fun x h => ?_, fun v h => ?_⟩
  · exact ⟨h.tracked.text_eq, h.tracked.position_eq, h.span_at.1, h.span_at.2,
      fun _ _ _ hnext => h.next_span_at hnext⟩
  · obtain ⟨t, hread, htext, hstart, hstop, hparts⟩ := Document.tracked_of_parse h
    refine ⟨t, hread, htext, ?_, ?_, fun p hp q hq => (hparts p hp).contains hq⟩
    · rw [hstart]
      exact .start t
    · rw [hstop]
      exact .position t
  · obtain ⟨r, hr⟩ := TypeRef.parse_eq_ok.mp h
    obtain ⟨t, hread, htext, hpart⟩ :=
      Reader.Reads.tracked (f := fun x => .node (.typeRef x)) Reader.reads_typeRef hr
    exact ⟨t, hread, htext, fun q hq => hpart.contains hq⟩
  · obtain ⟨r, hr⟩ := Value.parse_eq_ok.mp h
    obtain ⟨t, hread, htext, hpart⟩ :=
      Reader.Reads.tracked (f := fun v => .node (.value v)) Reader.reads_value hr
    exact ⟨t, hread, htext, fun q hq => hpart.contains hq⟩

/-- A byte order mark that does not count, a line end of two characters, and one in a string. -/
theorem Scanner.positions_counted_query : ∃ text d t,
    text = "\ufeff\x7b a\r\n b(c: \"\"\"\n\"\"\") \x7d" ∧ Document.parse text = .ok d ∧
      Item.ReadThrough text (d.definitions.map Definition.item) t ∧
      d.span.stop = ⟨3, 7, 24⟩ ∧ t.At d.span.stop ∧
      (∀ p ∈ d.parts, ∀ q, p.Contains q →
        ∀ span ∈ q.span?, t.At span.start ∧ t.At span.stop) ∧
      ∃ u s, Reached text u s ∧ s.cursor.position = u.position := by
  obtain ⟨hsteps, hdocument, -⟩ :=
    positions_counted "\ufeff\x7b a\r\n b(c: \"\"\"\n\"\"\") \x7d"
  have hspan : (Document.parse "\ufeff\x7b a\r\n b(c: \"\"\"\n\"\"\") \x7d").toOption.map
      (·.span.stop) = some ⟨3, 7, 24⟩ := by
    decide +kernel
  cases hparse : Document.parse "\ufeff\x7b a\r\n b(c: \"\"\"\n\"\"\") \x7d" with
  | error e =>
    rw [hparse] at hspan
    cases hspan
  | ok d =>
    rw [hparse] at hspan
    obtain ⟨t, hread, -, -, hstop, hall⟩ := hdocument d hparse
    exact ⟨_, d, t, rfl, hparse, hread, Option.some.inj hspan, hstop, hall, _, _, .start,
      (hsteps _ _ .start).2.1⟩

end GraphQLSyntax
