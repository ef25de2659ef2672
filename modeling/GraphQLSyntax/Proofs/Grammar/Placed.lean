import GraphQLSyntax.Proofs.Grammar.Sound.Document

/-!
# Where the parts of a document stand

* `Part.Placed`: a part covers the text of its pieces, and what it is made of stands inside it.
* `Part.Spelled.rest_eq`: the slice of a part stands where the part does.
* `Part.WrittenIn`: what carries this from a part to what it is made of.
* `Document.placed_of_parse`: all parts of an accepted document are placed in its text.
-/

namespace GraphQLSyntax

/-! ## What the spans of a tree say -/

/-- The text of a span. -/
def Span.Covers (text : String) (span : Span) (cs : List Char) : Prop :=
  Text.slice? text span.start.byteOffset span.stop.byteOffset = some (String.ofList cs)

/-- A part ends before another starts. -/
def Part.Before (p q : Part) : Prop := ∀ s ∈ p.span?, ∀ t ∈ q.span?,
  s.stop.byteOffset ≤ t.start.byteOffset

/-- The text of a span is made of some pieces, each at its place, with gaps between them but none
before the first or behind the last. -/
structure Span.MadeOf (text : String) (span : Span) (pieces : List Piece) : Prop where
  nonempty : span.start.byteOffset < span.stop.byteOffset
  inside : span.stop.byteOffset ≤ Text.byteLength text.toList
  ends : GraphQLSyntax.Covers span pieces
  spaced : ∃ first others cs, pieces = first :: others ∧ span.Covers text (first.chars ++ cs) ∧
    Spaced (others.map Piece.chars) cs
  pieces_covers : ∀ p ∈ pieces, p.span.Covers text p.chars

/-- A part covers the text that it is written with. What it is made of stands inside it, one part
behind the other. A token is the text that it covers, and the name behind a sigil is that text
without the sigil. -/
structure Part.Placed (text : String) (p : Part) : Prop where
  madeOf : ∃ pieces, p.Spelled .reading pieces ∧ ∀ span ∈ p.span?, span.MadeOf text pieces
  parts_inside : ∀ span ∈ p.span?, ∀ q ∈ p.parts, ∀ s ∈ q.span?,
    span.start.byteOffset ≤ s.start.byteOffset ∧ s.stop.byteOffset ≤ span.stop.byteOffset
  parts_pairwise : p.parts.Pairwise Part.Before
  token_text : ∀ t, p = .token t →
    Text.slice? text t.span.start.byteOffset t.span.stop.byteOffset = some t.text
  sigilName_text : ∀ sigil t, p = .sigilName sigil t →
    Text.slice? text (t.span.start.byteOffset + 1) t.span.stop.byteOffset = some t.text

/-! ## Pieces in a text -/

namespace Laid

variable {text : String} {k k' : Cursor} {pieces : List Piece}

theorem offset_le (h : Laid k pieces k') : k.position.byteOffset ≤ k'.position.byteOffset := by
  obtain ⟨cs, -, -, hoffset⟩ := h.spaced
  omega

theorem offset_lt (h : Laid k pieces k') (hne : pieces ≠ []) :
    k.skipTrivia.position.byteOffset < k'.position.byteOffset := by
  cases pieces with
  | nil => exact absurd rfl hne
  | cons p ps =>
    obtain ⟨cs, -, -, hoffset⟩ := h.spaced_tail
    have hpos := Text.byteLength_pos (List.append_ne_nil_of_left_ne_nil h.1.stands.chars_ne_nil cs)
    rw [Piece.chars] at hoffset
    omega

/-- Every piece covers its own text. -/
theorem covers_of_mem (h : Laid k pieces k') (hk : k.Reaches text) :
    ∀ p ∈ pieces, p.span.Covers text p.chars := by
  induction pieces generalizing k with
  | nil => simp
  | cons p ps ih =>
    obtain ⟨hp, hspan, h⟩ := h
    have hbehind : (k.behind p.terminal).Reaches text :=
      hk.skipTrivia.consume ⟨_, hp.rest_eq.symm⟩
    refine List.forall_mem_cons.mpr ⟨?_, ih h hbehind⟩
    rw [Span.Covers, hspan, Cursor.spanOf]
    exact hk.skipTrivia.slice hp.rest_eq (Cursor.byteOffset_consume _ _)

/-- Every piece ends behind its own text. -/
theorem stop_of_mem (h : Laid k pieces k') : ∀ p ∈ pieces,
    p.span.stop.byteOffset = p.span.start.byteOffset + Text.byteLength p.chars := by
  induction pieces generalizing k with
  | nil => simp
  | cons p ps ih =>
    obtain ⟨-, hspan, h⟩ := h
    refine List.forall_mem_cons.mpr ⟨?_, ih h⟩
    rw [hspan]
    exact Cursor.byteOffset_consume _ _

/-- Pieces in a text make up the text of the span that they cover. -/
theorem madeOf (h : Laid k pieces k') (hk : k.Reaches text) (hne : pieces ≠ []) :
    Span.MadeOf text ⟨k.skipTrivia.position, k'.position⟩ pieces := by
  refine ⟨h.offset_lt hne, ?_, h.covers hne, ?_, h.covers_of_mem hk⟩
  · have := (h.reaches hk).byteLength_rest
    dsimp only
    omega
  · cases pieces with
    | nil => exact absurd rfl hne
    | cons first others =>
      obtain ⟨cs, hrest, hspaced, hoffset⟩ := h.spaced_tail
      exact ⟨first, others, cs, rfl, hk.skipTrivia.slice hrest hoffset, hspaced⟩

end Laid

/-- The name behind a sigil is what the two cover, without the sigil. -/
theorem Terminal.LaidAt.slice_name {text : String} {k : Cursor} {sigil : Char} {name : String}
    {span : Span} (h : (Terminal.sigilName sigil name).LaidAt k) (hk : k.Reaches text)
    (hspan : span = k.spanOf (.sigilName sigil name)) :
    Text.slice? text (span.start.byteOffset + 1) span.stop.byteOffset = some name := by
  have hrest : k.skipTrivia.rest =
      [sigil] ++ (name.toList ++ (k.behind (.sigilName sigil name)).rest) := h.rest_eq
  have hbehind : k.behind (.sigilName sigil name) =
      (k.skipTrivia.consume [sigil]).consume name.toList := by
    rw [← Cursor.consume_append]
    rfl
  have hsize : (k.skipTrivia.consume [sigil]).position.byteOffset =
      k.skipTrivia.position.byteOffset + 1 := by
    rw [Cursor.byteOffset_consume]
    rcases h.stands.1 with rfl | rfl <;> rfl
  have hsigil := hk.skipTrivia.consume ⟨_, hrest.symm⟩
  have hslice := hsigil.slice (Cursor.rest_consume_of_append hrest) (by
    rw [hbehind, Cursor.byteOffset_consume])
  rw [hspan, Cursor.spanOf]
  dsimp only
  rw [← hsize, hslice, String.ofList_toList]

/-! ## Parts in a text -/

theorem Item.Spelled.of_mem {σ : Convention} {items : List Item} {pieces : List Piece} {p : Part}
    (h : Item.Spelled σ items pieces) (hp : Item.part p ∈ items) :
    ∃ before ps behind, pieces = before ++ (ps ++ behind) ∧ p.Spelled σ ps := by
  obtain ⟨first, last, rfl⟩ := List.append_of_mem hp
  obtain ⟨before, rest, rfl, -, h⟩ := h.of_append
  rw [← List.singleton_append] at h
  obtain ⟨ps, behind, rfl, h, -⟩ := h.of_append
  exact ⟨before, ps, behind, rfl, h.of_single⟩

/-- A part covers all of its pieces. -/
theorem Part.Spelled.span_eq {p : Part} {pieces : List Piece} {k k' : Cursor}
    (h : p.Spelled .reading pieces) (hlaid : Laid k pieces k') :
    ∀ span ∈ p.span?, span = ⟨k.skipTrivia.position, k'.position⟩ := by
  intro span hmem
  refine hlaid.span_eq h.ne_nil ?_
  cases h with
  | token t span' hspan =>
    cases hmem
    exact hspan
  | sigilName sigil t span' hspan =>
    cases hmem
    exact hspan
  | node hn hrule hitems hspan => exact hspan span hmem

/-- The slice of a part stands where the part does. -/
theorem Part.Spelled.rest_eq {text : String} {p : Part} {pieces : List Piece} {k k' : Cursor}
    {span : Span} (h : p.Spelled .reading pieces) (hlaid : Laid k pieces k')
    (hk : k.Reaches text) (hspan : span ∈ p.span?) :
    k.skipTrivia.rest = (span.slice text).toList ++ k'.rest := by
  obtain ⟨first, others, rfl⟩ := List.exists_cons_of_ne_nil h.ne_nil
  obtain ⟨cs, hrest, -, hoffset⟩ := hlaid.spaced_tail
  rw [h.span_eq hlaid span hspan, Span.slice, hk.skipTrivia.slice hrest hoffset,
    Option.getD_some, String.toList_ofList, hrest]

/-- The parts among some items stand between the cursors, one behind the other. -/
theorem Item.Spelled.pairwise {items : List Item} {pieces : List Piece} {k k' : Cursor}
    (h : Item.Spelled .reading items pieces) (hlaid : Laid k pieces k') :
    (items.filterMap Item.part?).Pairwise Part.Before ∧
      ∀ q ∈ items.filterMap Item.part?, ∀ s ∈ q.span?,
        k.skipTrivia.position.byteOffset ≤ s.start.byteOffset ∧
          s.stop.byteOffset ≤ k'.position.byteOffset := by
  induction items generalizing k pieces with
  | nil => simp
  | cons item items ih =>
    cases h with
    | @terminal t span _ ps h =>
      obtain ⟨hp, -, hlaid⟩ := hlaid
      obtain ⟨hpairwise, hinside⟩ := ih h hlaid
      refine ⟨hpairwise, fun q hq s hs => ?_⟩
      have hlt : k.skipTrivia.position.byteOffset < (k.behind t).position.byteOffset :=
        (Laid.single hp).offset_lt (List.cons_ne_nil _ _)
      have hle := (k.behind t).byteOffset_le_skipTrivia
      have := hinside q hq s hs
      dsimp only at this
      omega
    | @part p _ first ps hp h =>
      obtain ⟨k₁, hfirst, hrest⟩ := Laid.append_iff.mp hlaid
      obtain ⟨hpairwise, hinside⟩ := ih h hrest
      have hspan := hp.span_eq hfirst
      have hlt := hfirst.offset_lt hp.ne_nil
      have hle := hrest.offset_le
      have hnext := k₁.byteOffset_le_skipTrivia
      rw [Item.filterMap_part]
      refine ⟨List.pairwise_cons.mpr ⟨fun q hq s hs t ht => ?_, hpairwise⟩,
        List.forall_mem_cons.mpr ⟨fun s hs => ?_, fun q hq s hs => ?_⟩⟩
      · rw [hspan s hs]
        have := (hinside q hq t ht).1
        dsimp only
        omega
      · rw [hspan s hs]
        exact ⟨Nat.le_refl _, hle⟩
      · have := hinside q hq s hs
        omega

/-- A part is written in a text, with the pieces that stand there. -/
def Part.WrittenIn (text : String) (p : Part) : Prop :=
  ∃ k pieces k', k.Reaches text ∧ Laid k pieces k' ∧ p.Spelled .reading pieces

/-- The parts among written items are written. -/
theorem Item.Spelled.writtenIn {text : String} {items : List Item} {pieces : List Piece}
    {k k' : Cursor} (h : Item.Spelled .reading items pieces) (hlaid : Laid k pieces k')
    (hk : k.Reaches text) : ∀ q ∈ items.filterMap Item.part?, q.WrittenIn text := by
  intro q hq
  obtain ⟨item, hmem, hitem⟩ := List.mem_filterMap.mp hq
  obtain rfl : item = .part q := by
    cases item <;> cases hitem
    rfl
  obtain ⟨before, ps, behind, rfl, hq⟩ := h.of_mem hmem
  obtain ⟨k₁, hbefore, hlaid⟩ := Laid.append_iff.mp hlaid
  obtain ⟨k₂, hps, -⟩ := Laid.append_iff.mp hlaid
  exact ⟨k₁, ps, k₂, hbefore.reaches hk, hps, hq⟩

namespace Part.WrittenIn

variable {text : String} {p : Part}

/-- What a written part is made of is written, too. -/
theorem part (h : p.WrittenIn text) : ∀ q ∈ p.parts, q.WrittenIn text := by
  intro q hq
  obtain ⟨k, pieces, k', hk, hlaid, hspelled⟩ := h
  cases hspelled with
  | token => cases hq
  | sigilName => cases hq
  | node hn hrule hitems hspan =>
    rw [parts, ← hrule.parts_eq] at hq
    exact hitems.writtenIn hlaid hk q hq

theorem placed (h : p.WrittenIn text) : p.Placed text := by
  obtain ⟨k, pieces, k', hk, hlaid, hspelled⟩ := h
  have hspan := hspelled.span_eq hlaid
  refine ⟨⟨pieces, hspelled, ?_⟩, ?_, ?_, ?_, ?_⟩
  · intro span hmem
    rw [hspan span hmem]
    exact hlaid.madeOf hk hspelled.ne_nil
  · intro span hmem q hq s hs
    rw [hspan span hmem]
    cases hspelled with
    | token => cases hq
    | sigilName => cases hq
    | node hn hrule hitems _ =>
      rw [parts, ← hrule.parts_eq] at hq
      exact (hitems.pairwise hlaid).2 q hq s hs
  · cases hspelled with
    | token => exact .nil
    | sigilName => exact .nil
    | node hn hrule hitems _ =>
      rw [parts, ← hrule.parts_eq]
      exact (hitems.pairwise hlaid).1
  · rintro t rfl
    cases hspelled with
    | token _ span hcovers =>
      obtain rfl : span = t.span := covers_single.mp hcovers
      have hslice := hlaid.covers_of_mem hk _ List.mem_cons_self
      rwa [Span.Covers, Piece.chars, Token.chars_terminal, String.ofList_toList] at hslice
  · rintro sigil t rfl
    cases hspelled with
    | sigilName _ _ span hcovers =>
      obtain rfl : span = t.span := covers_single.mp hcovers
      obtain ⟨hp, hspan', -⟩ := hlaid
      exact hp.slice_name hk hspan'

end Part.WrittenIn

/-! ## Documents -/

namespace Document

variable {text : String} {d : Document}

theorem parts_eq (d : Document) :
    (d.definitions.map Definition.item).filterMap Item.part? = d.parts := filterMap_part? _ _

/-- The definitions of a written document are written. -/
theorem SpelledBy.writtenIn {pieces : List Piece} {k : Cursor} (h : SpelledBy text d pieces k) :
    ∀ p ∈ d.parts, p.WrittenIn text := by
  intro p hp
  rw [← parts_eq] at hp
  exact h.spelled.writtenIn h.laid (Cursor.reaches_ofText text) p hp

/-- The definitions of a written document stand one behind the other. -/
theorem SpelledBy.pairwise {pieces : List Piece} {k : Cursor} (h : SpelledBy text d pieces k) :
    d.definitions.Pairwise fun a b => a.span.stop.byteOffset ≤ b.span.start.byteOffset := by
  have hparts := (h.spelled.pairwise h.laid).1
  rw [parts_eq, parts, List.pairwise_map] at hparts
  refine hparts.imp fun {a b} hbefore => hbefore a.span ?_ b.span ?_
  · cases a <;> rfl
  · cases b <;> rfl

/-- **The spans of a document form a tree over its text.** Everything in an accepted document is
placed in the text. The definitions stand one behind the other, operations and fragments alike, and
the document covers all of the text. -/
theorem placed_of_parse (h : Document.parse text = .ok d) :
    (∀ p ∈ d.parts, ∀ q, p.Contains q → q.Placed text) ∧
      d.definitions.Pairwise (fun a b => a.span.stop.byteOffset ≤ b.span.start.byteOffset) ∧
      d.operations.Pairwise (fun a b => a.span.stop.byteOffset ≤ b.span.start.byteOffset) ∧
      d.fragments.Pairwise (fun a b => a.span.stop.byteOffset ≤ b.span.start.byteOffset) ∧
      d.span.start.byteOffset = 0 ∧
      d.span.stop.byteOffset = Text.byteLength text.toList := by
  obtain ⟨pieces, k, hspelled⟩ := spelled_of_parse h
  have hpairwise := hspelled.pairwise
  refine ⟨fun p hp q hq => ?_, hpairwise, hpairwise.filterMap _ ?_, hpairwise.filterMap _ ?_,
    ?_, ?_⟩
  · have hwritten : q.WrittenIn text :=
      Part.contains_induction (fun _ hp => hp.part) hq (hspelled.writtenIn p hp)
    exact hwritten.placed
  · intro a b hab o ho o' ho'
    cases a <;> cases ho
    cases b <;> cases ho'
    exact hab
  · intro a b hab f hf f' hf'
    cases a <;> cases hf
    cases b <;> cases hf'
    exact hab
  · rw [hspelled.span_eq]
    rfl
  · have hend := (hspelled.laid.reaches (Cursor.reaches_ofText text)).skipTrivia.byteLength_rest
    rw [hspelled.rest_eq, Text.byteLength_nil, Nat.add_zero] at hend
    rw [hspelled.span_eq, ← hend]

/-- A query with an alias, a variable, an inline fragment and a comment. -/
theorem placed_of_parse_query : ∃ text d,
    text = "query Q($x: [Int!] = 1) \x7b # c\n a: b(x: $x) ... on T \x7b c \x7d \x7d " ∧
      Document.parse text = .ok d ∧
      (∀ p ∈ d.parts, ∀ q, p.Contains q → q.Placed text) ∧ d.span.stop.byteOffset = 60 := by
  refine ⟨"query Q($x: [Int!] = 1) \x7b # c\n a: b(x: $x) ... on T \x7b c \x7d \x7d ", ?_⟩
  have hok : (Document.parse
      "query Q($x: [Int!] = 1) \x7b # c\n a: b(x: $x) ... on T \x7b c \x7d \x7d ").isOk = true := by
    decide +kernel
  cases hparse : Document.parse
      "query Q($x: [Int!] = 1) \x7b # c\n a: b(x: $x) ... on T \x7b c \x7d \x7d " with
  | error e =>
    rw [hparse] at hok
    cases hok
  | ok d =>
    obtain ⟨hplaced, -, -, -, -, hstop⟩ := placed_of_parse hparse
    exact ⟨d, rfl, rfl, hplaced, hstop.trans (by decide +kernel)⟩

end Document

end GraphQLSyntax
