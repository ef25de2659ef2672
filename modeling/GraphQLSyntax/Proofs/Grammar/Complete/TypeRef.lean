import GraphQLSyntax.Proofs.Grammar.Gives
import GraphQLSyntax.Proofs.Grammar.Wrapping

/-!
# Types that are written are read

* `Convention.Counted`: brackets are counted as the reader counts them.
* `Reader.gives_typeRef`: a type is read where it stands, if no bracket or mark follows it.
-/

namespace GraphQLSyntax

/-- Where a type may have so many lists, the reader counts its brackets as them. -/
def Convention.Counted (σ : Convention) : Prop :=
  ∀ brackets lists, lists < Reader.maxLists → σ.counts brackets lists →
    Reader.countedLists brackets = lists

theorem Convention.counted_reading : reading.Counted := fun _ _ _ h => h

variable {σ : Convention} {g : Position → Position} {k k' : Cursor}

/-- Brackets and marks among the items are how the text starts. -/
theorem Item.LaidOut.rest_of_marks {marks : List Char}
    (h : Item.LaidOut σ g (marks.map fun c => .terminal (.mark c)) k k') :
    ∃ taken, k.rest = taken ++ k'.rest ∧ Lexical.marks taken = marks ∧ k' = k.consume taken ∧
      Lexical.trimmed taken = taken := by
  obtain ⟨pieces, hlaid, hspelled⟩ := h
  rw [Item.map_mark, Item.Spelled.terminals_iff, List.map_map] at hspelled
  exact hlaid.rest_of_marks hspelled

namespace Reader

theorem mem_of_marks {taken ignored : List Char} {P : Char → Prop}
    (hignored : ∀ c ∈ ignored, Lexical.isIgnorable c) (hmarks : ∀ c ∈ Lexical.marks taken, P c) :
    ∀ c ∈ taken ++ ignored, Lexical.isIgnorable c ∨ P c := by
  intro c hc
  by_cases hc' : Lexical.isIgnorable c
  · exact .inl hc'
  · rcases List.mem_append.mp hc with hc | hc
    · exact .inr (hmarks c (List.mem_filter.mpr ⟨hc, by simp [hc']⟩))
    · exact absurd (hignored c hc) hc'

/-- The brackets that are looked for behind the first one are those of the type. The name follows
them. -/
theorem openings_laidOut {brackets : Nat}
    (h : Item.LaidOut σ g (Item.openings (brackets + 1)) k k') (hname : k'.ahead = .name) :
    ∃ first taken, first = k.behind (.lexeme .squareOpen "[") ∧
      taken = Lexical.openings first.rest ∧ taken.count '[' = brackets ∧
      k'.skipTrivia = (first.consume taken).skipTrivia := by
  obtain ⟨-, h⟩ := Item.LaidOut.terminal h
  rw [← List.map_replicate (f := fun c => Item.terminal (.mark c))] at h
  obtain ⟨taken, hrest, hmarks, rfl, -⟩ := h.rest_of_marks
  generalize hfirst : k.behind (.lexeme .squareOpen "[") = first at *
  obtain ⟨ignored, hignored, hsplit, hskip, hhead⟩ := (first.consume taken).exists_ignorable
  have hopenings : Lexical.openings first.rest = taken ++ ignored := by
    rw [hrest, hsplit, ← List.append_assoc]
    refine Lexical.openings_eq (mem_of_marks hignored fun c hc => ?_) fun c hc =>
      ⟨(hhead c hc).1, ?_⟩
    · rw [hmarks] at hc
      exact List.eq_of_mem_replicate hc
    · rintro rfl
      have hbracket := (hhead _ hc).2 (.inl rfl)
      rw [hname] at hbracket
      cases hbracket
  rw [← Cursor.consume_append] at hskip
  refine ⟨first, taken ++ ignored, rfl, hopenings.symm, ?_, hskip.symm⟩
  have hmarks' := Lexical.marks_openings first.rest
  rw [hopenings, Lexical.marks_append, Lexical.marks_eq_nil hignored, List.append_nil,
    hmarks] at hmarks'
  have := congrArg List.length hmarks'
  simpa using this.symm

/-- Opening brackets are read up to the name that follows them. -/
theorem gives_openings {brackets : Nat} (h : Item.LaidOut σ g (Item.openings brackets) k k')
    (hlists : countedLists brackets < maxLists) (hname : k'.ahead = .name) :
    ∃ r, openings (.ofCursor k) = .ok (countedLists brackets, r) ∧
      r.scanner = .ofCursor k'.skipTrivia := by
  cases brackets with
  | zero =>
    obtain rfl := h.nil
    refine ⟨.ofCursor k', ?_, rfl⟩
    unfold openings
    rw [lexeme_bind, Reading.lexeme_ofCursor, if_neg (by rw [hname]; decide)]
    rfl
  | succ brackets =>
    obtain ⟨first, taken, hfirst, htaken, hcount, hskip⟩ := openings_laidOut h hname
    refine ⟨_, (openings_eq_ok h.terminal.1.ahead hfirst htaken).mpr
      ⟨?_, hlists, ?_, rfl⟩, ?_⟩
    · rw [hcount]
    · rw [Cursor.ahead, ← hskip, ← Cursor.ahead, hname]
      decide
    · rw [Reading.ofCursor, hskip]

/-- Brackets and marks behind a name are read, if none follows them. -/
theorem gives_closings {r : Reading} {wrapping : Wrapping} {marks : List Char} {opener : Span}
    (h : Item.LaidOut σ g (marks.map fun c => .terminal (.mark c)) k k')
    (hclosed : wrapping.Closed marks) (hk : r.scanner.cursor = k)
    (hnext : k'.ahead ∉ [.unknown, .squareClose]) :
    closings wrapping.dimensions opener r = .ok (wrapping, .ofCursor k') := by
  obtain ⟨taken, hrest, rfl, rfl, htrimmed⟩ := h.rest_of_marks
  obtain ⟨ignored, hignored, hsplit, hskip, hhead⟩ := (k.consume taken).exists_ignorable
  have hwrapping : Wrapping.ofClosings (taken ++ ignored) = wrapping := by
    refine Wrapping.Closed.ofClosings_eq ?_
    rwa [Lexical.marks_append, Lexical.marks_eq_nil hignored, List.append_nil]
  have hcount : (taken ++ ignored).count ']' = wrapping.dimensions := by
    rw [← hwrapping, Wrapping.dimensions_ofClosings]
  rw [← Cursor.consume_append] at hskip hsplit hhead
  simp only [List.mem_cons, List.not_mem_nil, or_false, not_or] at hnext
  have hnot (c : Char) (hc : c ∈ (k.consume (taken ++ ignored)).rest.head?) :
      c ≠ '!' ∧ c ≠ ']' := by
    refine ⟨?_, ?_⟩ <;> rintro rfl
    · exact hnext.1 ((hhead _ hc).2 (.inr (.inr rfl)))
    · exact hnext.2 ((hhead _ hc).2 (.inr (.inl rfl)))
  have hclosings : Lexical.closings wrapping.dimensions k.rest = taken ++ ignored := by
    rw [hrest, hsplit, ← List.append_assoc]
    exact Lexical.closings_eq (mem_of_marks hignored hclosed.mem) hcount fun c hc =>
      ⟨(hhead c hc).1, (hnot c hc).1⟩
  refine (closings_eq_ok hk hclosings.symm).mpr ⟨?_, hcount, ?_, hwrapping.symm, ?_⟩
  · intro hc
    exact (hnot _ hc).2 rfl
  · rw [Cursor.ahead, hskip]
    exact hnext.1
  · rw [Lexical.trimmed_append_ignorable hignored, htrimmed]

/-- A type is read where it stands. -/
theorem gives_typeRef {t : TypeRef} (hσ : σ.Counted) (h : (Part.node (.typeRef t)).LaidOut σ g k k')
    (hnext : k'.ahead ∉ [.unknown, .squareClose]) : typeRef.Gives k k' fun t' => t'.map g = t := by
  obtain ⟨⟨hname, hlists⟩, ⟨items, hrule, hitems⟩, hspans⟩ := h.node
  have hspan := hspans t.span rfl
  have hahead : k.ahead ∈ [.name, .squareOpen] := h.item.ahead_mem
  cases hrule with
  | @typeRef _ brackets marks hcounts hclosed =>
    have hcounted : countedLists brackets = t.dimensions := hσ _ _ hlists hcounts
    obtain ⟨k₁, hopenings, hbehind⟩ := hitems.append
    obtain ⟨k₂, htoken, hmarks⟩ := hbehind.part
    obtain ⟨hlaid, rfl, hplace⟩ := htoken.token
    rw [hname.terminal_eq] at hlaid hplace hmarks
    obtain ⟨r, hr, hscanner⟩ := gives_openings hopenings (hcounted ▸ hlists) hlaid.ahead
    have hspanned : (spanned wrappedName).Gives k k' fun t' => t'.map g = t := by
      refine Gives.spanned ⟨fun span =>
        ⟨.plain .name t.name.text (k₁.spanOf (.lexeme .name t.name.text)), t.wrapping, span⟩,
        ?_, ?_⟩
      · unfold wrappedName
        rw [token_bind]
        refine bind_eq_ok.mpr ⟨_, r, hr, ?_⟩
        have htoken : r.scanner.token =
            .plain .name t.name.text (k₁.spanOf (.lexeme .name t.name.text)) := by
          rw [hscanner]
          exact hlaid.token_eq
        rw [lexeme_bind, if_pos (by rw [hscanner]; exact hlaid.ahead), token_bind, htoken]
        refine bind_eq_ok.mpr ⟨_, _, ?_, rfl⟩
        rw [hcounted]
        exact gives_closings hmarks hclosed (by rw [hscanner]; exact hlaid.cursor_eq) hnext
      · unfold TypeRef.map
        dsimp only
        rw [hname.map_eq hplace, hspan]
    refine Gives.lexeme_bind ?_
    simp only [List.mem_cons, List.not_mem_nil, or_false] at hahead
    rcases hahead with hahead | hahead <;> rw [hahead] <;> exact hspanned

end Reader

end GraphQLSyntax
