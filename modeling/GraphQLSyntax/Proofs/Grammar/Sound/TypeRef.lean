import GraphQLSyntax.Proofs.Grammar.Reads
import GraphQLSyntax.Proofs.Grammar.Wrapping

/-!
# Types are read as they are written

* `Reader.reads_typeRef`: a reader of types reads the type that it gives.
-/

namespace GraphQLSyntax

namespace Reader

variable {k : Cursor} {r' : Reading}

theorem spelled_marks {marks : List Char} {pieces : List Piece}
    (h : pieces.map (·.terminal) = marks.map .mark) :
    Item.Spelled .reading (marks.map fun c => .terminal (.mark c)) pieces := by
  rw [Item.map_mark, Item.Spelled.terminals_iff, h]

/-- The opening brackets of a type are pieces. -/
theorem laid_openings (h : k.ahead = .squareOpen) {first : Cursor} {taken : List Char}
    (hfirst : first = k.behind (.lexeme .squareOpen (String.singleton '[')))
    (htaken : taken = Lexical.openings first.rest) : ∃ k' pieces,
      k'.skipTrivia = (first.consume taken).skipTrivia ∧ Laid k pieces k' ∧
      Item.Spelled .reading (Item.openings (taken.count '[' + 1)) pieces := by
  subst hfirst htaken
  have hrest := Lexical.openings_append
    (k.behind (.lexeme .squareOpen (String.singleton '['))).rest
  obtain ⟨pieces, hmarks, hpieces⟩ := Laid.of_marks hrest fun c hc =>
    (Lexical.mem_openings hc).imp_right .inl
  refine ⟨_, _, (Cursor.skipTrivia_consume_trimmed hrest).symm,
    (Laid.single (k.laidAt_word h rfl)).append hmarks, .terminal _ _ ?_⟩
  rw [Lexical.marks_openings, List.map_replicate] at hpieces
  rw [← List.map_replicate]
  exact Item.Spelled.terminals_iff.mpr hpieces

/-- The brackets and marks behind the name of a type are pieces. -/
theorem laid_closings (lists : Nat) (k : Cursor) : ∃ pieces,
    Laid k pieces (k.consume (Lexical.trimmed (Lexical.closings lists k.rest))) ∧
      Item.Spelled .reading ((Lexical.marks (Lexical.closings lists k.rest)).map fun c =>
        .terminal (.mark c)) pieces := by
  obtain ⟨pieces, hlaid, hpieces⟩ := Laid.of_marks (Lexical.closings_append lists k.rest)
    fun c hc => (Lexical.mem_closings hc).imp_right .inr
  exact ⟨pieces, hlaid, spelled_marks hpieces⟩

/-- The opening brackets are read up to where the name is looked for. -/
theorem spelled_openings {lists : Nat} (h : openings (.ofCursor k) = .ok (lists, r')) :
    ∃ k' brackets pieces, r'.scanner = .ofCursor k'.skipTrivia ∧ Laid k pieces k' ∧
      Item.Spelled .reading (Item.openings brackets) pieces ∧ countedLists brackets = lists ∧
      lists < maxLists := by
  by_cases hopen : k.ahead = .squareOpen
  · obtain ⟨rfl, hlists, -, rfl⟩ := (openings_eq_ok hopen rfl rfl).mp h
    obtain ⟨k', pieces, hskip, hlaid, hspelled⟩ := laid_openings hopen rfl rfl
    exact ⟨k', _, pieces, by rw [hskip]; rfl, hlaid, hspelled, rfl, hlists⟩
  · unfold openings at h
    rw [lexeme_bind, Reading.lexeme_ofCursor, if_neg hopen] at h
    cases h
    exact ⟨k, 0, [], rfl, rfl, .nil, rfl, by decide⟩

theorem spelled_closings {r : Reading} {lists : Nat} {opener : Span} {wrapping : Wrapping}
    (hk : r.scanner.cursor = k) (h : closings lists opener r = .ok (wrapping, r')) :
    ∃ k' marks pieces, r' = .ofCursor k' ∧ Laid k pieces k' ∧
      Item.Spelled .reading (marks.map fun c => .terminal (.mark c)) pieces ∧
      wrapping.Closed marks ∧ wrapping.dimensions = lists := by
  obtain ⟨-, hcount, -, rfl, rfl⟩ := (closings_eq_ok hk rfl).mp h
  obtain ⟨pieces, hlaid, hspelled⟩ := laid_closings lists k
  refine ⟨_, _, pieces, rfl, hlaid, hspelled,
    Wrapping.closed_ofClosings fun c => Lexical.mem_closings, ?_⟩
  rw [Wrapping.dimensions_ofClosings, hcount]

theorem reads_wrappedName : wrappedName.Reads fun build items _ =>
    ∃ name wrapping brackets closings,
    name.IsPlainName ∧ countedLists brackets = wrapping.dimensions ∧
    wrapping.dimensions < maxLists ∧ wrapping.Closed closings ∧
    build = (fun span => ⟨name, wrapping, span⟩) ∧
    items = Item.openings brackets ++ name.item :: closings.map fun c => .terminal (.mark c) := by
  intro k build r' h
  unfold wrappedName at h
  rw [token_bind] at h
  obtain ⟨lists, r₁, hopenings, h⟩ := bind_eq_ok.mp h
  obtain ⟨k₁, brackets, pieces, hscanner, hlaid, hspelled, hbrackets, hlists⟩ :=
    spelled_openings hopenings
  rw [lexeme_bind, hscanner] at h
  split at h
  · rename_i hname
    have hname : k₁.ahead = .name := hname
    obtain ⟨text, hlaid₁⟩ := k₁.laidAt_lexeme (by rw [hname]; rfl)
    rw [hname] at hlaid₁
    rw [token_bind, hscanner] at h
    obtain ⟨wrapping, r₂, hclosings, h⟩ := bind_eq_ok.mp h
    cases h
    obtain ⟨k₂, closings, pieces', rfl, hlaid', hspelled', hclosed, rfl⟩ :=
      spelled_closings (k := k₁.behind (.lexeme .name text))
        (by rw [hscanner]; exact hlaid₁.cursor_eq) hclosings
    have htoken : (Scanner.ofCursor k₁.skipTrivia).token =
        .plain .name text (k₁.spanOf (.lexeme .name text)) := hlaid₁.token_eq
    rw [htoken]
    have hname' : Item.Spelled .reading
        [(Token.plain .name text (k₁.spanOf (.lexeme .name text))).item]
        [⟨.lexeme .name text, k₁.spanOf (.lexeme .name text)⟩] := spelled_token rfl
    exact ⟨k₂, _, _, rfl, hlaid.append ((Laid.single hlaid₁).append hlaid'),
      hspelled.append (hname'.append hspelled'), _, wrapping, brackets, closings, ⟨rfl, rfl⟩,
      hbrackets, hlists, hclosed, rfl, rfl⟩
  · cases h

/-- A type is read as it is written. -/
theorem reads_typeRef : typeRef.Reads fun t items _ => items = [t.item] := by
  intro k
  have hspanned : (spanned wrappedName).ReadsFrom (fun t items _ => items = [t.item]) k := by
    refine (reads_wrappedName k).spanned .typeRef ?_
    rintro _ _ k' span ⟨name, wrapping, brackets, closings, hname, hbrackets, hlists, hclosed, rfl,
      rfl⟩
    exact ⟨⟨hname, hlists⟩, .typeRef ⟨name, wrapping, span⟩ hbrackets hclosed, rfl, rfl⟩
  refine ReadsFrom.lexeme_bind ?_
  split
  · exact hspanned
  · exact hspanned
  · exact ReadsFrom.failUnexpected _

end Reader

end GraphQLSyntax
