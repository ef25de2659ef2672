import GraphQLSyntax.Proofs.Grammar.Complete.Document
import GraphQLSyntax.Proofs.Grammar.Interleaved
import GraphQLSyntax.Proofs.Print.Spelled

/-!
# Printed documents are read back

* `Laid.exists_of_spaces`: terminals that stand apart are laid in a text with spaces between them.
* `Document.laidOut_print`: a document stands in its printed text.
* `Document.parse_print`: that text is parsed as the document, at other positions.
-/

namespace GraphQLSyntax

/-! ## Terminals with spaces between them -/

/-- What follows the first of some texts with spaces between them is blank, or starts so. -/
theorem exists_intercalate_cons (t : List Char) (ts : List (List Char)) :
    ∃ gap, (∀ c ∈ gap, c = ' ') ∧
      (∀ c ∈ (gap ++ [' '].intercalate ts).head?, c = ' ') ∧
      [' '].intercalate (t :: ts) = t ++ (gap ++ [' '].intercalate ts) := by
  cases ts with
  | nil => exact ⟨[], by simp, by simp, by simp⟩
  | cons u us => exact ⟨[' '], by simp, by simp, by simp⟩

/-- Terminals that stand apart are laid in a text with spaces between them, up to its end. -/
theorem Laid.exists_of_spaces {ts : List Terminal} {k : Cursor} {gap : List Char}
    (h : ∀ t ∈ ts, t.StandsApart) (hgap : ∀ c ∈ gap, c = ' ')
    (hrest : k.rest = gap ++ [' '].intercalate (ts.map Terminal.chars)) :
    ∃ pieces k', Laid k pieces k' ∧ pieces.map (·.terminal) = ts ∧ k'.ahead = .eof := by
  have hignored : ∀ c ∈ gap, Lexical.isIgnorable c := by
    intro c hc
    rw [hgap c hc]
    rfl
  induction ts generalizing k gap with
  | nil =>
    refine ⟨[], k, rfl, rfl, k.ahead_of_ignorable ?_⟩
    rwa [hrest, List.map_nil, List.intercalate_nil, List.append_nil]
  | cons t ts ih =>
    obtain ⟨next, hnext, hhead, hcons⟩ :=
      exists_intercalate_cons t.chars (ts.map Terminal.chars)
    rw [List.map_cons, hcons] at hrest
    obtain ⟨hat, hbehind⟩ := (h t (by simp) _ hhead).laidAt hrest hignored
    rw [← List.append_assoc] at hrest
    obtain ⟨pieces, k', hlaid, hpieces, hend⟩ := ih (k := k.behind t)
      (fun u hu => h u (by simp [hu])) hnext
      (by rw [hbehind, Cursor.rest_consume_of_append hrest]) (by
        intro c hc
        rw [hnext c hc]
        rfl)
    exact ⟨⟨t, k.spanOf t⟩ :: pieces, k', ⟨hat, rfl, hlaid⟩, by rw [List.map_cons, hpieces], hend⟩

/-! ## Documents -/

/-- Without positions, pieces are their terminals. -/
theorem Piece.map_forget (pieces : List Piece) :
    pieces.map (Piece.map Position.forget) = (pieces.map (·.terminal)).map Piece.blank := by
  rw [List.map_map]
  rfl

theorem Convention.counted_printing : printing.Counted := by
  rintro brackets _ hlists rfl
  have hsize : brackets < UInt32.size := Nat.lt_trans hlists (by decide)
  exact Nat.mod_eq_of_lt hsize

namespace Document

/-- A document stands in its printed text. -/
theorem laidOut_print {d : Document} (h : d.WellFormed) :
    ∃ k', Item.LaidOut .printing Position.forget (d.erased.definitions.map Definition.item)
      (.ofText d.print) k' ∧ k'.ahead = .eof := by
  obtain ⟨hspelled, hstands⟩ := Document.printed h
  have hrest : (Cursor.ofText d.print).rest =
      [] ++ [' '].intercalate (d.terminals.map Terminal.chars) := String.toList_ofList
  obtain ⟨pieces, k', hlaid, hpieces, hend⟩ :=
    Laid.exists_of_spaces hstands (fun c hc => by cases hc) hrest
  refine ⟨k', ⟨pieces, hlaid, ?_⟩, hend⟩
  rw [Piece.map_forget, hpieces]
  exact hspelled

/-- **Printed documents are read back.** The printed text of a well-formed document is parsed as
that document, at other positions. Its operations and fragments start in the order of the
document. -/
theorem parse_print {d : Document} (h : d.WellFormed) :
    ∃ d', Document.parse d.print = .ok d' ∧ d'.erased = d.erased ∧
      d'.inSourceOrder.map (Definition.map Position.forget) = d.erased.definitions := by
  obtain ⟨k', hlaid, hend⟩ := laidOut_print h
  obtain ⟨d', hparse, hdefinitions⟩ := parse_of_laidOut Convention.counted_printing id hlaid hend
  obtain ⟨_, _, hspelled⟩ := spelled_of_parse hparse
  refine ⟨d', hparse, ?_, ?_⟩
  · rw [erased, Document.map, hdefinitions]
    rfl
  · rw [hspelled.inSourceOrder_eq, hdefinitions]

/-- A query with a variable, a field under another name and a fragment that selects nothing. -/
def sample : Document :=
  let span : Span := ⟨.start, .start⟩
  let name (text : String) : Token := .plain .name text span
  ⟨[.operation ⟨some ⟨.query, .plain .query "query" span, none,
      [⟨name "id", ⟨name "Int", .list true (.named false), span⟩,
        some (.list [.scalar (.literal .int "1" span)] span), [], span⟩], []⟩,
      [.field (some (name "a")) (name "b") [⟨name "on",
          .reference ⟨.name, "id", span, some .variableName⟩, span⟩] [] [] span,
        .fragmentSpread (name "f") [⟨name "d", [], span⟩] span], span⟩,
    .fragment ⟨name "f", name "T", [], [], span⟩], span⟩

theorem parse_print_sample : sample.WellFormed ∧
    ∃ d', Document.parse sample.print = .ok d' ∧ d'.erased = sample.erased ∧
      d'.inSourceOrder.map (Definition.map Position.forget) = sample.erased.definitions := by
  have h : sample.WellFormed := by
    simp [WellFormed, sample, parts, Definition.node, Node.parts, Operation.keyword,
      Operation.name, Operation.variableDefinitions, Operation.directives, Node.selectionParts,
      Node.valueParts, Node.WellFormed, OperationHeader.WellFormed, Selection.WellFormed,
      Value.WellFormed, Token.IsWhole, Token.IsPlainName, Token.IsLiteral, Token.plain,
      Token.literal]
    decide
  exact ⟨h, parse_print h⟩

example : sample.print = "query ( $id : [ Int ] ! = [ 1 ] ) " ++
    "\x7b a : b ( on : $id ) ... f @d \x7d fragment f on T \x7b \x7d" := by
  decide +kernel

end Document

end GraphQLSyntax
