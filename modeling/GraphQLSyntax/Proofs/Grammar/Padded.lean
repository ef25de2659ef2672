import GraphQLSyntax.Proofs.Grammar.Complete.Document
import GraphQLSyntax.Proofs.Grammar.Cut
import GraphQLSyntax.Proofs.Grammar.Placed

/-!
# Gaps between lexemes

What may stand between lexemes may be put in front of each of them, and nothing but positions
changes. Only in front of a bracket or a mark of a type, comments and byte order marks may not.

* `Laid.until_gap`: the pieces in front of a gap that is put into a text.
* `Laid.padded`, `Laid.trailed`: pieces stand in a text where a gap is put between them or behind
  them.
* `Part.Spelled.mark_inside`: brackets and marks stand inside a type.
* `Document.padded_of_parse`: a text with a gap put between its lexemes is parsed as the same
  document.
-/

namespace GraphQLSyntax

variable {text : String} {k k' m : Cursor} {cs ds gap : List Char} {q : Piece}
  {ps qs pieces : List Piece}

/-! ## Pieces with a gap put between them -/

namespace Laid

/-- Where pieces stand, they stand behind another gap, too. -/
theorem behind_gap (h : Laid k (q :: qs) k') (hcut : IsCut k'.rest) (hgap : GapText gap)
    (hmark : q.terminal.isMark → ∀ c ∈ gap, Lexical.isIgnorable c)
    (hm : m.rest = gap ++ k.skipTrivia.rest) : ∃ pieces' m', Laid m pieces' m' ∧
      pieces'.map (Piece.map .forget) = (q :: qs).map (Piece.map .forget) ∧
      m'.rest = k'.rest := by
  obtain ⟨hq, -, h⟩ := h
  rw [hq.rest_eq] at hm
  obtain ⟨hat, hbehind⟩ := hq.stands.laidAt_gap hm (hgap.before _) hmark
  obtain ⟨cs, hrest, -, -⟩ := h.spaced
  obtain ⟨pieces', m', hlaid, hpieces, hend⟩ := h.cut hrest (hbehind.trans hrest) hcut
  refine ⟨⟨q.terminal, m.spanOf q.terminal⟩ :: pieces', m', ⟨hat, rfl, hlaid⟩, ?_, hend⟩
  rw [List.map_cons, List.map_cons, hpieces]
  rfl

/-- The pieces in front of a place stand in a text where a gap is put there. -/
theorem until_gap (h : Laid k (ps ++ q :: qs) k') (hrest : k.rest = cs ++ ds)
    (hstart : q.span.start.byteOffset = k.position.byteOffset + Text.byteLength cs)
    (hgap : GapText gap) (hne : gap ≠ []) (hm : m.rest = cs ++ (gap ++ ds)) :
    ∃ k₁ gap₀ ps' m₁, Laid k₁ (q :: qs) k' ∧ k₁.skipTrivia.rest = ds ∧ GapText gap₀ ∧
      (q.terminal.isMark → ∀ c ∈ gap₀, Lexical.isIgnorable c) ∧ Laid m ps' m₁ ∧
      ps'.map (Piece.map .forget) = ps.map (Piece.map .forget) ∧ m₁.rest = gap₀ ++ (gap ++ ds) := by
  obtain ⟨k₁, hps, hqs⟩ := append_iff.mp h
  obtain ⟨hq, hspan, -⟩ := id hqs
  obtain ⟨before, hbefore, -, hoffset⟩ := hps.spaced
  obtain ⟨gap₀, hrest₀, hgap₀, hmark₀, hoffset₀⟩ := hq.gap
  rw [hspan, Cursor.spanOf] at hstart
  dsimp only at hstart
  obtain ⟨rfl, rfl⟩ : before ++ gap₀ = cs ∧ k₁.skipTrivia.rest = ds := by
    refine Text.append_inj ?_ ?_
    · rw [← hrest, hbefore, hrest₀, hq.rest_eq, List.append_assoc]
    · rw [Text.byteLength_append]
      omega
  have hgap₀ : GapText gap₀ :=
    .of_gap hgap₀ hq.stands.startsLexeme (by simp [hq.stands.chars_ne_nil])
  have htail : IsCut (gap₀ ++ gap ++ k₁.skipTrivia.rest) :=
    ((hgap₀.append hgap).before []).isCut.append (by simp [hne]) _
  rw [List.append_assoc] at hm htail
  obtain ⟨ps', m₁, hlaid, hps', hm₁⟩ := hps.cut hbefore hm htail
  exact ⟨k₁, gap₀, ps', m₁, hqs, rfl, hgap₀, hmark₀, hlaid, hps', hm₁⟩

/-- Pieces stand in a text where a gap is put in front of one of them. -/
theorem padded (h : Laid k (ps ++ q :: qs) k') (hcut : IsCut k'.rest) (hrest : k.rest = cs ++ ds)
    (hstart : q.span.start.byteOffset = k.position.byteOffset + Text.byteLength cs)
    (hgap : GapText gap) (hmark : q.terminal.isMark → ∀ c ∈ gap, Lexical.isIgnorable c)
    (hm : m.rest = cs ++ (gap ++ ds)) : ∃ pieces' m', Laid m pieces' m' ∧
      pieces'.map (Piece.map .forget) = (ps ++ q :: qs).map (Piece.map .forget) ∧
      m'.rest = k'.rest := by
  by_cases hnil : gap = []
  · subst hnil
    obtain ⟨whole, hwhole, -, -⟩ := h.spaced
    exact h.cut hwhole (by rw [hm, List.nil_append, ← hrest, hwhole]) hcut
  · obtain ⟨k₁, gap₀, ps', m₁, hqs, rfl, hgap₀, hmark₀, hps', hpieces', hm₁⟩ :=
      h.until_gap hrest hstart hgap hnil hm
    have hmark' : q.terminal.isMark → ∀ c ∈ gap₀ ++ gap, Lexical.isIgnorable c :=
      fun hq c hc => (List.mem_append.mp hc).elim (hmark₀ hq c) (hmark hq c)
    rw [← List.append_assoc] at hm₁
    obtain ⟨qs', m', hqs', hpieces, hend⟩ := hqs.behind_gap hcut (hgap₀.append hgap) hmark' hm₁
    refine ⟨ps' ++ qs', m', hps'.append hqs', ?_, hend⟩
    rw [List.map_append, List.map_append, hpieces', hpieces]

/-- Pieces stand in a text where something that is no part of them is put behind all of it. -/
theorem trailed (h : Laid k pieces k') (hcut : IsCut (k'.rest ++ gap))
    (hm : m.rest = k.rest ++ gap) : ∃ pieces' m', Laid m pieces' m' ∧
      pieces'.map (Piece.map .forget) = pieces.map (Piece.map .forget) ∧
      m'.rest = k'.rest ++ gap := by
  obtain ⟨cs, hrest, -, -⟩ := h.spaced
  exact h.cut hrest (by rw [hm, hrest, List.append_assoc]) hcut

end Laid

/-! ## Marks -/

/-- A place lies between the ends of a span. -/
def Span.Inside (span : Span) (n : Nat) : Prop :=
  span.start.byteOffset < n ∧ n < span.stop.byteOffset

/-- A piece that is not the first starts inside what they all cover. -/
theorem Laid.start_inside (h : Laid k (ps ++ q :: qs) k') (hne : ps ≠ []) :
    Span.Inside ⟨k.skipTrivia.position, k'.position⟩ q.span.start.byteOffset := by
  obtain ⟨k₁, hps, hqs⟩ := append_iff.mp h
  have hlt := hps.offset_lt hne
  have hle := k₁.byteOffset_le_skipTrivia
  have hlt' := hqs.offset_lt (List.cons_ne_nil q qs)
  rw [hqs.2.1]
  exact ⟨Nat.lt_of_lt_of_le hlt hle, hlt'⟩

/-- Nothing among some items is a bracket or a mark that is looked for. -/
def Item.Unmarked (items : List Item) : Prop := ∀ t, Item.terminal t ∈ items → t.isMark = false

namespace Item

variable {items items' written : List Item} {selections : List Selection}

@[simp] theorem unmarked_nil : Unmarked [] := fun _ h => nomatch h

@[simp] theorem unmarked_terminal {t : Terminal} :
    Unmarked (.terminal t :: items) ↔ t.isMark = false ∧ Unmarked items := by
  simp [Unmarked]

@[simp] theorem unmarked_part {p : Part} : Unmarked (.part p :: items) ↔ Unmarked items := by
  simp [Unmarked]

@[simp] theorem unmarked_append :
    Unmarked (items ++ items') ↔ Unmarked items ∧ Unmarked items' := by
  simp only [Unmarked, List.mem_append, or_imp, forall_and]

theorem unmarked_parts {α : Type} {f : α → Item} (hf : ∀ a, ∃ p, f a = .part p) (l : List α) :
    Unmarked (l.map f) := by
  intro t ht
  obtain ⟨a, -, ha⟩ := List.mem_map.mp ht
  obtain ⟨p, hp⟩ := hf a
  rw [hp] at ha
  cases ha

theorem unmarked_braced (h : Unmarked items) : Unmarked (braced items) := by
  simpa [braced, word, Terminal.isMark]

end Item

theorem InParentheses.unmarked {items written : List Item} (h : InParentheses items written)
    (hitems : Item.Unmarked items) : Item.Unmarked written := by
  cases h with
  | absent => exact hitems
  | present => simpa [Item.parenthesised, Item.word, Terminal.isMark]

/-- Only in types there are brackets and marks that are looked for. -/
theorem Rule.unmarked {σ : Convention} {n : Node} {items : List Item} (h : Rule σ n items)
    (hn : ∀ t, n ≠ .typeRef t) : Item.Unmarked items := by
  have hselections (ss : List Selection) :
      Item.Unmarked (Item.braced (ss.map Selection.item)) :=
    Item.unmarked_braced (Item.unmarked_parts (fun s => ⟨_, rfl⟩) ss)
  have hdirectives (ds : List Directive) : Item.Unmarked (ds.map Directive.item) :=
    Item.unmarked_parts (fun d => ⟨_, rfl⟩) ds
  have hbodies {ss : List Selection} {body : List Item} (h : DefinitionBody σ ss body) :
      Item.Unmarked body := by
    cases h with
    | absent => exact Item.unmarked_nil
    | present => exact hselections ss
  have harguments {as : List Argument} {written : List Item}
      (h : InParentheses (as.map Argument.item) written) : Item.Unmarked written :=
    h.unmarked (Item.unmarked_parts (fun a => ⟨_, rfl⟩) as)
  have hfieldBody (ss : List Selection) : Item.Unmarked (fieldBody ss) := by
    unfold fieldBody
    split
    · exact Item.unmarked_nil
    · exact hselections ss
  cases h with
  | typeRef t => exact absurd rfl (hn t)
  | shorthand => exact hselections _
  | operation header selections span hvariables hbody =>
    have := hvariables.unmarked (Item.unmarked_parts (fun v => ⟨_, rfl⟩) _)
    have := hbodies hbody
    cases header.name <;> simp [Token.item, *]
  | fragment f hbody =>
    have := hbodies hbody
    simp [Item.keyword, Item.word, Token.item, Terminal.isMark, *]
  | variableDefinition v =>
    cases v.default <;> simp [Item.word, Terminal.isMark, TypeRef.item, Value.item, *]
  | directive d hwritten => simpa using harguments hwritten
  | argument a => cases a.value <;>
      simp [Item.word, Token.item, Terminal.isMark, ArgumentValue.item, Value.item]
  | reference => simp
  | true => simp [Item.keyword, Item.word, Terminal.isMark]
  | false => simp [Item.keyword, Item.word, Terminal.isMark]
  | null => simp [Item.keyword, Item.word, Terminal.isMark]
  | scalar => simp [Token.item]
  | list items span =>
    have := Item.unmarked_parts (f := Value.item) (fun v => ⟨_, rfl⟩) items
    simp [Item.word, Terminal.isMark, *]
  | field aliasName name arguments directives selections span hwritten =>
    have := harguments hwritten
    cases aliasName <;> simp [Token.item, Item.word, Terminal.isMark, *]
  | fragmentSpread => simp [Token.item, Terminal.isMark, *]
  | inlineFragment typeCondition =>
    cases typeCondition <;>
      simp [Item.keyword, Item.word, Token.item, Terminal.isMark, *]

theorem Token.isMark_terminal (t : Token) : t.terminal.isMark = false := by
  unfold Token.terminal
  split <;> rfl

/-- The first piece of a type is no mark. -/
theorem TypeRef.head_unmarked {σ : Convention} {t : TypeRef} {items : List Item}
    (h : Rule σ (.typeRef t) items) (hitems : Item.Spelled σ items (q :: qs)) :
    q.terminal.isMark = false := by
  cases h with
  | @typeRef _ brackets closings =>
    cases brackets with
    | zero =>
      generalize hpieces : q :: qs = pieces at hitems
      cases hitems with
      | part hname _ =>
        cases hname with
        | token =>
          obtain ⟨rfl, -⟩ := List.cons.inj hpieces
          exact t.name.isMark_terminal
    | succ brackets =>
      cases hitems
      rfl

mutual

/-- A bracket or a mark that is looked for stands in a type, behind its start. -/
theorem Part.Spelled.mark_inside {p : Part} {pieces : List Piece} {k k' : Cursor}
    (h : p.Spelled .reading pieces) (hlaid : Laid k pieces k') (hq : q ∈ pieces)
    (hmark : q.terminal.isMark) :
    ∃ t, p.Contains (.node (.typeRef t)) ∧ t.span.Inside q.span.start.byteOffset :=
  match h with
  | .token t span _ => by
    obtain rfl := List.mem_singleton.mp hq
    rw [t.isMark_terminal] at hmark
    cases hmark
  | .sigilName sigil t span _ => by
    obtain rfl := List.mem_singleton.mp hq
    cases hmark
  | .node (n := n) hn hrule hitems hspan => by
    by_cases htype : ∃ t, n = .typeRef t
    · obtain ⟨t, rfl⟩ := htype
      obtain ⟨ps, qs, rfl⟩ := List.append_of_mem hq
      refine ⟨t, .self _, ?_⟩
      rw [hlaid.span_eq (by simp) (hspan t.span rfl)]
      refine hlaid.start_inside ?_
      rintro rfl
      rw [TypeRef.head_unmarked hrule hitems] at hmark
      cases hmark
    · obtain ⟨q, t, hq, ht, hinside⟩ :=
        hitems.mark_inside (hrule.unmarked fun t ht => htype ⟨t, ht⟩) hlaid hq hmark
      refine ⟨t, .part ?_ ht, hinside⟩
      rw [Part.parts, ← hrule.parts_eq]
      exact List.mem_filterMap.mpr ⟨_, hq, rfl⟩

theorem Item.Spelled.mark_inside {items : List Item} {pieces : List Piece} {k k' : Cursor}
    (h : Item.Spelled .reading items pieces) (hitems : Item.Unmarked items)
    (hlaid : Laid k pieces k') (hq : q ∈ pieces) (hmark : q.terminal.isMark) :
    ∃ p t, .part p ∈ items ∧ p.Contains (.node (.typeRef t)) ∧
      t.span.Inside q.span.start.byteOffset :=
  match h with
  | .nil => nomatch hq
  | .terminal t span h => by
    obtain ⟨ht, hitems⟩ := Item.unmarked_terminal.mp hitems
    rcases List.mem_cons.mp hq with rfl | hq
    · rw [ht] at hmark
      cases hmark
    · obtain ⟨p, t, hp, hinside⟩ := h.mark_inside hitems hlaid.2.2 hq hmark
      exact ⟨p, t, List.mem_cons_of_mem _ hp, hinside⟩
  | .part hp h => by
    obtain ⟨k₁, hfirst, hrest⟩ := Laid.append_iff.mp hlaid
    rcases List.mem_append.mp hq with hq | hq
    · obtain ⟨t, ht, hinside⟩ := hp.mark_inside hfirst hq hmark
      exact ⟨_, t, List.mem_cons_self, ht, hinside⟩
    · obtain ⟨p, t, hp, hinside⟩ :=
        h.mark_inside (Item.unmarked_part.mp hitems) hrest hq hmark
      exact ⟨p, t, List.mem_cons_of_mem _ hp, hinside⟩

end

/-! ## Documents -/

namespace Document

variable {d : Document}

/-- A place is inside a type of a document. -/
def InType (d : Document) (n : Nat) : Prop :=
  ∃ p ∈ d.parts, ∃ t, p.Contains (.node (.typeRef t)) ∧ t.span.Inside n

/-- Brackets and marks that are looked for stand in types. -/
theorem SpelledBy.inType (h : SpelledBy text d pieces k) (hq : q ∈ pieces)
    (hmark : q.terminal.isMark) : d.InType q.span.start.byteOffset := by
  obtain ⟨p, t, hp, ht⟩ := h.spelled.mark_inside
    (Item.unmarked_parts (fun x => ⟨_, rfl⟩) d.definitions) h.laid hq hmark
  refine ⟨p, ?_, t, ht⟩
  rw [← d.parts_eq]
  exact List.mem_filterMap.mpr ⟨_, hp, rfl⟩

/-- A text with the pieces of a document in it, up to its end, is parsed as that document. -/
theorem parse_of_pieces {pieces' : List Piece}
    (h : Definition.Chain .reading d.definitions pieces .eof)
    (hlaid : Laid (.ofText text) pieces' k)
    (hpieces : pieces'.map (Piece.map .forget) = pieces.map (Piece.map .forget))
    (hend : k.ahead = .eof) : ∃ d', Document.parse text = .ok d' ∧ d'.erased = d.erased := by
  have hchain := h.map (f := .forget)
  rw [← hpieces] at hchain
  obtain ⟨d', hparse, hd'⟩ := parse_of_chain Convention.counted_reading hchain hlaid hend
  refine ⟨d', hparse, ?_⟩
  rw [erased, erased, Document.map, Document.map, hd']
  rfl

/-- A place between the pieces of a text: in front of one of them, or at the end of the text, if no
comment goes on there. -/
def Between (pieces : List Piece) (k : Cursor) (n : Nat) : Prop :=
  (∃ q ∈ pieces, q.span.start.byteOffset = n) ∨
    GapText k.rest ∧ n = k.position.byteOffset + Text.byteLength k.rest

/-- **Gaps between lexemes are insignificant.** An accepted text is made of pieces, which are its
lexemes, with a sigil and its name, the dots of a spread and an object literal each in one. A gap
may be put between them, inside a type one of ignorable characters. What is parsed then differs in
nothing but its positions. -/
theorem padded_of_parse (h : Document.parse text = .ok d) : ∃ pieces k,
    SpelledBy text d pieces k ∧ ∀ cs ds gap, text.toList = cs ++ ds → GapText gap →
      Between pieces k (Text.byteLength cs) →
      (d.InType (Text.byteLength cs) → ∀ c ∈ gap, Lexical.isIgnorable c) →
      ∃ d', Document.parse (String.ofList (cs ++ gap ++ ds)) = .ok d' ∧ d'.erased = d.erased := by
  obtain ⟨pieces, k, hspelled, hchain⟩ := chain_of_parse h
  refine ⟨pieces, k, hspelled, fun cs ds gap htext hgap hbetween htype => ?_⟩
  have hend := hspelled.gap_rest
  have hcut := hend.isCut
  have hm : (Cursor.ofText (String.ofList (cs ++ gap ++ ds))).rest = cs ++ (gap ++ ds) := by
    simp [Cursor.ofText]
  rcases hbetween with ⟨q, hq, hstart⟩ | ⟨htail, hlength⟩
  · obtain ⟨ps, qs, rfl⟩ := List.append_of_mem hq
    obtain ⟨pieces', m', hlaid, hpieces, hrest⟩ := hspelled.laid.padded hcut htext
      (by rw [hstart]; exact (Nat.zero_add _).symm) hgap
      (fun hmark => htype (hstart ▸ hspelled.inType hq hmark)) hm
    exact parse_of_pieces hchain hlaid hpieces (Cursor.ahead_of_gap (hrest ▸ hend))
  · have hwhole := (hspelled.laid.reaches (Cursor.reaches_ofText text)).byteLength_rest
    obtain rfl : ds = [] := by
      by_contra hne
      have hpos := Text.byteLength_pos hne
      rw [htext, Text.byteLength_append] at hwhole
      omega
    have hgap' := htail.append hgap
    obtain ⟨pieces', m', hlaid, hpieces, hrest⟩ :=
      hspelled.laid.trailed (hgap'.before []).isCut (m := .ofText _) (by
        rw [hm]
        show cs ++ (gap ++ []) = text.toList ++ gap
        rw [htext, List.append_nil, List.append_nil])
    exact parse_of_pieces hchain hlaid hpieces (Cursor.ahead_of_gap (hrest ▸ hgap'.before []))

/-- A byte order mark and a comment in front of a query. -/
theorem padded_of_parse_query : ∃ d d', Document.parse "query Q($x: [T!]) \x7b a \x7d" = .ok d ∧
    Document.parse "\ufeff# b\rquery Q($x: [T!]) \x7b a \x7d" = .ok d' ∧
    d'.erased = d.erased := by
  have hok : (Document.parse "query Q($x: [T!]) \x7b a \x7d").isOk := by decide +kernel
  cases hparse : Document.parse "query Q($x: [T!]) \x7b a \x7d" with
  | error e =>
    rw [hparse] at hok
    cases hok
  | ok d =>
    obtain ⟨pieces, k, hspelled, hpadded⟩ := padded_of_parse hparse
    have hskip := Cursor.skipTrivia_of_startsLexeme
      (k := .ofText "query Q($x: [T!]) \x7b a \x7d") (by rintro c ⟨⟩; decide)
    cases pieces with
    | nil =>
      obtain rfl := hspelled.laid
      have hrest := hspelled.rest_eq
      rw [hskip] at hrest
      cases hrest
    | cons q qs =>
      have hcomment : GapText ('#' :: ([' ', 'b'] ++ ['\r'])) :=
        .comment (by simp [Text.isLineBreak]) rfl .nil
      have hgap : GapText ['\ufeff', '#', ' ', 'b', '\r'] := .ignorable (by decide) hcomment
      have hstart : q.span.start.byteOffset = 0 := by
        rw [hspelled.laid.2.1, Cursor.spanOf, hskip]
        rfl
      have htype : ¬ d.InType 0 := by
        rintro ⟨_, _, _, _, hlt, _⟩
        exact Nat.not_lt_zero _ hlt
      obtain ⟨d', hparse', hd'⟩ := hpadded [] _ _ rfl hgap
        (.inl ⟨q, List.mem_cons_self, hstart⟩) fun h => absurd h htype
      exact ⟨d, d', rfl, hparse', hd'⟩

end Document

end GraphQLSyntax
