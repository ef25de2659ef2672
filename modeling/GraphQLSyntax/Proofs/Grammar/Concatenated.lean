import GraphQLSyntax.Proofs.Grammar.Below
import GraphQLSyntax.Proofs.Grammar.Complete.Document
import GraphQLSyntax.Proofs.Grammar.Cut
import GraphQLSyntax.Proofs.Grammar.Tracked

/-!
# Documents one below the other

Two documents, with a line feed between them, are one. Nothing but positions passes from the first
to what is read behind it, and they are counted on.

* `Reader.Fresh`: a reader does not ask what was read before it.
* `Laid.skipTrivia_of_line`, `Laid.over`: the pieces of the first text stay, and behind them the
  other text starts.
* `Document.readFrom`: the document that is read from a cursor on.
* `Document.readFrom_below`, `Document.readFrom_of_chain`: it moves with what stands above, and goes
  on behind definitions.
* `Document.parse_concatenated`: what is read from two texts with a line feed between them.
-/

namespace GraphQLSyntax

variable {text : String} {k k' : Cursor} {pieces : List Piece} {above : List Char}

/-! ## From where a reader starts -/

namespace Reader

variable {α β : Type}

/-- What a reader reads has nothing to do with where the reading before it ended. -/
def Fresh (p : Reader α) : Prop := ∀ s stop stop', p ⟨s, stop⟩ = p ⟨s, stop'⟩

namespace Fresh

theorem fail (error : Scanner → SyntaxError) : (Reader.fail error : Reader α).Fresh :=
  fun _ _ _ => rfl

theorem take : Reader.take.Fresh := fun _ _ _ => rfl

theorem bind {p : Reader α} (hp : p.Fresh) (f : α → Reader β) : (p >>= f).Fresh := by
  intro s stop stop'
  rw [bind_apply, bind_apply, hp s stop stop']

theorem lexeme_bind {f : Lexeme → Reader α} (hf : ∀ l, (f l).Fresh) : (lexeme >>= f).Fresh :=
  fun s => hf s.lexeme s

theorem keyword_bind {f : Lexeme → Reader α} (hf : ∀ l, (f l).Fresh) : (keyword >>= f).Fresh :=
  fun s => hf (s.keyword .execution) s

theorem expect (kind : Lexeme) (expected : List String) : (Reader.expect kind expected).Fresh :=
  lexeme_bind fun l => by
    split
    · exact take
    · exact fail _

theorem spanned {part : Reader (Span → α)} (hpart : part.Fresh) : (Reader.spanned part).Fresh := by
  intro s stop stop'
  unfold Reader.spanned
  rw [hpart s stop stop']

end Fresh

theorem fresh_ownSelections : ownSelections.Fresh := (Fresh.expect _ _).bind _

theorem fresh_definition : definition.Fresh :=
  .keyword_bind fun l => by
    split
    · exact (Fresh.spanned (fresh_ownSelections.bind _)).bind _
    · exact (Fresh.spanned (Fresh.take.bind _)).bind _
    · exact (Fresh.spanned (Fresh.take.bind _)).bind _
    · exact (Fresh.spanned (Fresh.take.bind _)).bind _
    · exact (Fresh.spanned (Fresh.take.bind _)).bind _
    · exact fun _ _ _ => rfl
    · exact .fail _

/-! ## Behind a cursor -/

/-- Going on from a cursor below another text is going on from where it is without that text. -/
theorem Moves.after {p : Reader α} {q : Reader β} {R : α → β → Prop} (h : Moves above R p q)
    (k : Cursor) : Below above R (p.after k) (q.after (k.map (.below above))) := by
  have hnext : Scanner.ofCursor (k.map (.below above)).skipTrivia =
      (Scanner.ofCursor k.skipTrivia).map (.below above) := by
    rw [Cursor.skipTrivia_below, Scanner.ofCursor_below]
  have hahead : (k.map (.below above)).ahead = k.ahead := by
    rw [Cursor.ahead, hnext]
    rfl
  have hreading : Reading.ofCursor (k.map (.below above)) =
      (Reading.ofCursor k).map (.below above) := by
    rw [Reading.ofCursor, hnext]
    rfl
  unfold Reader.after
  rw [hahead, hnext, Scanner.error_below, hreading]
  split
  · exact .error _
  · exact h (.ofCursor k)

end Reader

/-- Behind the end of a line, a text is scanned as it is alone, below all that stands before it. -/
theorem Laid.skipTrivia_of_line {whole text' : String} {gap : List Char}
    (h : Laid (.ofText whole) pieces k) (hgap : GapText (gap ++ ['\n']))
    (hrest : k.rest = gap ++ ['\n'] ++ text'.toList)
    (hwhole : whole.toList = above ++ text'.toList) :
    k.skipTrivia = ((Cursor.ofText text').map (.below above)).skipTrivia := by
  obtain ⟨t, hk⟩ : ∃ t, k.Past whole t := ⟨_, (h.past (.start whole)).1⟩
  obtain ⟨u, hu, hpass⟩ := hgap.passed
  -- Past the gap, all that stands above the text has been gone past.
  have htext := hk.text_eq
  rw [hrest, hwhole, ← List.append_assoc] at htext
  obtain rfl := List.append_cancel_right htext
  have hline : (t ++ u).text = t.text ++ gap ++ ['\n'] := by
    rw [Trail.text_append, hu, List.append_assoc]
  rw [← hpass _ text'.toList hrest, hk.cursor_eq, ← Cursor.passAll_append,
    Cursor.passAll_of_line hline]
  · rw [List.append_assoc]
  · rw [hline, hwhole]
    simp only [List.append_assoc]

/-- Pieces of a text stand in a text with another below it. Behind them, that other text goes
on. -/
theorem Laid.over (h : Laid (.ofText text) pieces k) (hend : Gap k.rest []) (text' : String) :
    ∃ k', Laid (.ofText (text ++ "\n" ++ text')) pieces k' ∧
      k'.skipTrivia = ((Cursor.ofText text').map (.below (text ++ "\n").toList)).skipTrivia := by
  obtain ⟨cs, hrest, -, -⟩ := h.spaced
  have htext : text.toList = cs ++ k.rest := hrest
  -- What stands behind the pieces is a gap that now ends with its line.
  have hgap : GapText (k.rest ++ ['\n']) := .of_gap_line hend rfl rfl
  have hlaid := h.keep hrest ((hgap.before []).isCut.append (by simp) text'.toList)
  have hwhole : { Cursor.ofText text with rest := cs ++ (k.rest ++ ['\n'] ++ text'.toList) } =
      .ofText (text ++ "\n" ++ text') := by
    simp [Cursor.ofText, htext]
  rw [hwhole] at hlaid
  exact ⟨_, hlaid, hlaid.skipTrivia_of_line hgap rfl (String.toList_append ..)⟩

/-! ## Documents from a cursor on -/

namespace Document

/-- The document that is read from a cursor on. -/
def readFrom (k : Cursor) : Except SyntaxError Document :=
  (Reader.definitions.after k).map fun q => ⟨q.1, .start, q.2.scanner.cursor.position⟩

theorem parse_eq_readFrom (text : String) : Document.parse text = readFrom (.ofText text) :=
  parse_eq_after text

/-- Only the next lexeme tells what is read from a cursor on. -/
theorem readFrom_congr (h : k.skipTrivia = k'.skipTrivia) : readFrom k = readFrom k' := by
  unfold readFrom Reader.after Cursor.ahead Reading.ofCursor
  rw [h]
  generalize Scanner.ofCursor k'.skipTrivia = s
  split
  · rfl
  · by_cases hend : s.lexeme = .eof
    · rw [Reader.definitions_of_end hend, Reader.definitions_of_end hend]
      rfl
    · rw [Reader.definitions_of_more hend, Reader.definitions_of_more hend,
        Reader.fresh_definition.bind _ s k.position k'.position]

/-- A document that stands below another text, read from behind that text on. -/
def below (above : List Char) (d : Document) : Document :=
  ⟨d.definitions.map (Definition.map (.below above)), .start, d.span.stop.below above⟩

/-- Below another text, the same is read. -/
theorem readFrom_below (above : List Char) (k : Cursor) : readFrom (k.map (.below above)) =
    ((readFrom k).map (below above)).mapError (SyntaxError.map (.below above)) := by
  have h : Reader.Below above (Reader.By _) _ _ := Reader.moves_definitions.after k
  unfold readFrom
  generalize Reader.definitions.after k = read at h
  generalize Reader.definitions.after (k.map (.below above)) = read' at h
  cases h with
  | ok r h =>
    rw [h]
    rfl
  | error e => rfl

/-- What is read from a cursor on starts with the definitions that stand there. -/
theorem readFrom_of_chain {ds : List Definition} (h : Definition.Chain .reading ds pieces k'.ahead)
    (hlaid : Laid k pieces k') :
    readFrom k = (readFrom k').map fun d => { d with definitions := ds ++ d.definitions } := by
  obtain ⟨ds', hds, hread⟩ := Reader.definitions_after (g := id) Convention.counted_reading
    (by rwa [Piece.map_id, List.map_id]) hlaid
  rw [Definition.map_id_fun, List.map_id] at hds
  subst hds
  unfold readFrom
  rw [hread]
  cases Reader.definitions.after k' <;> rfl

/-! ## Two texts -/

/-- The last definition of a document ends with a closing brace, if there is any. -/
def Closed (text : String) (d : Document) : Prop :=
  ∀ x ∈ d.definitions.getLast?, (x.span.slice text).toList.getLast? = some '}'

instance decidableClosed (text : String) (d : Document) : Decidable (d.Closed text) :=
  inferInstanceAs (Decidable (∀ x ∈ d.definitions.getLast?,
    (x.span.slice text).toList.getLast? = some '}'))

/-- Then so does the last of its pieces. -/
theorem SpelledBy.closed {d : Document} (h : SpelledBy text d pieces k) (hd : d.Closed text) :
    pieces = [] ∨ Piece.Closed pieces := by
  obtain ⟨hlaid, hspelled, -, -⟩ := h
  obtain hnil | ⟨front, x, hdefinitions⟩ := d.definitions.eq_nil_or_concat'
  · rw [hnil] at hspelled
    cases hspelled
    exact .inl rfl
  · rw [hdefinitions, List.map_append] at hspelled
    obtain ⟨first, second, rfl, -, hsecond⟩ := hspelled.of_append
    obtain ⟨k₁, hfirst, hlaid⟩ := Laid.append_iff.mp hlaid
    have hx := hsecond.of_single
    have hspan : x.span ∈ (Part.node x.node).span? := by cases x <;> rfl
    have hslice := hx.rest_eq hlaid (hfirst.reaches (Cursor.reaches_ofText text)) hspan
    have hlast := hd x (by rw [hdefinitions, List.getLast?_concat]; rfl)
    obtain ⟨p, hp⟩ : ∃ p, second.getLast? = some p := ⟨_, List.getLast?_eq_some_getLast hx.ne_nil⟩
    obtain ⟨hstands, cs, hrest⟩ := hlaid.last hp
    have hchars : p.chars ≠ [] := hstands.chars_ne_nil
    refine .inr ((Piece.Closed.append_iff hx.ne_nil).mpr ⟨p, hp, ?_, _, hstands⟩)
    rw [hslice, ← List.append_assoc] at hrest
    rwa [List.append_cancel_right hrest, List.getLast?_append_of_ne_nil _ hchars] at hlast

/-- Below a document that ends with a brace, the reading goes on with what stands there. -/
theorem parse_append {text' : String} {d : Document} (h : Document.parse text = .ok d)
    (hd : d.Closed text) : Document.parse (text ++ "\n" ++ text') =
      (readFrom ((Cursor.ofText text').map (.below (text ++ "\n").toList))).map fun d' =>
        { d' with definitions := d.definitions ++ d'.definitions } := by
  obtain ⟨pieces, k, hspelled, hchain⟩ := chain_of_parse h
  obtain ⟨k', hlaid, hnext⟩ := hspelled.laid.over hspelled.gap_rest text'
  rw [parse_eq_readFrom, readFrom_of_chain (hchain.before (hspelled.closed hd) _) hlaid,
    readFrom_congr hnext]

theorem operations_below (above : List Char) (d : Document) :
    (d.below above).operations = d.operations.map (Operation.map (.below above)) := by
  rw [operations, operations, below, List.filterMap_map, List.map_filterMap]
  refine List.filterMap_congr fun x _ => ?_
  cases x <;> rfl

theorem fragments_below (above : List Char) (d : Document) :
    (d.below above).fragments = d.fragments.map (Fragment.map (.below above)) := by
  rw [fragments, fragments, below, List.filterMap_map, List.map_filterMap]
  refine List.filterMap_congr fun x _ => ?_
  cases x <;> rfl

/-- **Documents concatenate.** Below an accepted text that has no definitions, or whose last
definition ends with a brace, any other text is read as it is read alone. Its operations and
fragments follow those above, and its error is the error of both. All that is read in it keeps its
columns; its lines and bytes are counted on. -/
theorem parse_concatenated {text : String} {d : Document} (h : Document.parse text = .ok d)
    (hd : d.Closed text) (text' : String) :
    (∀ d', Document.parse text' = .ok d' →
      ∃ whole, Document.parse (text ++ "\n" ++ text') = .ok whole ∧
        whole.operations =
          d.operations ++ d'.operations.map (Operation.map (.below (text ++ "\n").toList)) ∧
        whole.fragments =
          d.fragments ++ d'.fragments.map (Fragment.map (.below (text ++ "\n").toList))) ∧
    ∀ e, Document.parse text' = .error e →
      Document.parse (text ++ "\n" ++ text') = .error (e.map (.below (text ++ "\n").toList)) := by
  rw [parse_append h hd, readFrom_below, ← parse_eq_readFrom]
  refine ⟨fun d' hd' => ?_, fun e he => ?_⟩
  · rw [hd']
    refine ⟨_, rfl, ?_, ?_⟩
    · rw [← operations_below]
      exact List.filterMap_append
    · rw [← fragments_below]
      exact List.filterMap_append
  · rw [he]
    rfl

/-- A fragment that ends with a brace, a comment and a carriage return behind it. Below them, a
query is read, and one that does not end is refused. -/
theorem parse_concatenated_fragment : ∃ text d d' whole e,
    text = "query \x7b a \x7d fragment F on T \x7b b \x7d # c\r" ∧ Document.parse text = .ok d ∧
      d.Closed text ∧ Document.parse "\x7b d \x7d" = .ok d' ∧
      Document.parse (text ++ "\n" ++ "\x7b d \x7d") = .ok whole ∧
      whole.operations =
        d.operations ++ d'.operations.map (Operation.map (.below (text ++ "\n").toList)) ∧
      Document.parse "\x7b d" = .error e ∧
      Document.parse (text ++ "\n" ++ "\x7b d") =
        .error (e.map (.below (text ++ "\n").toList)) := by
  refine ⟨"query \x7b a \x7d fragment F on T \x7b b \x7d # c\r", ?_⟩
  have hclosed : (Document.parse "query \x7b a \x7d fragment F on T \x7b b \x7d # c\r").toOption.any
      (fun d => d.Closed "query \x7b a \x7d fragment F on T \x7b b \x7d # c\r") = true := by
    decide +kernel
  have hok : (Document.parse "\x7b d \x7d").isOk = true := by decide +kernel
  have herror : (Document.parse "\x7b d").isOk = false := by decide +kernel
  cases hparse : Document.parse "query \x7b a \x7d fragment F on T \x7b b \x7d # c\r" with
  | error e =>
    rw [hparse] at hclosed
    cases hclosed
  | ok d =>
    rw [hparse] at hclosed
    have hd : d.Closed "query \x7b a \x7d fragment F on T \x7b b \x7d # c\r" :=
      of_decide_eq_true hclosed
    cases hparse' : Document.parse "\x7b d \x7d" with
    | error e =>
      rw [hparse'] at hok
      cases hok
    | ok d' =>
      cases hfail : Document.parse "\x7b d" with
      | ok d'' =>
        rw [hfail] at herror
        cases herror
      | error e =>
        obtain ⟨whole, hwhole, hoperations, -⟩ :=
          (parse_concatenated hparse hd "\x7b d \x7d").1 d' hparse'
        exact ⟨d, d', whole, e, rfl, rfl, hd, rfl, hwhole, hoperations, rfl,
          (parse_concatenated hparse hd "\x7b d").2 e hfail⟩

end Document

end GraphQLSyntax
