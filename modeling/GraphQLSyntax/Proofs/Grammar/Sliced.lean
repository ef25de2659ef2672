import GraphQLSyntax.Proofs.Grammar.Complete.Document
import GraphQLSyntax.Proofs.Grammar.Cut
import GraphQLSyntax.Proofs.Grammar.Placed

/-!
# Slices are parsed as what was sliced

The text that a node covers can be parsed on its own, that of a selection between braces. What is
read differs in nothing but its positions.

* `Part.WrittenIn.sliced`: what a part is written with stands in its slice, too.
* `TypeRef.parse_slice`, `Value.parse_slice`, `Definition.parse_slice`: the slice of a node is
  parsed as that node.
* `Selection.parse_braced`: the slice of a selection between braces is parsed as a query.
* `Document.slices_of_parse`: this holds of all nodes of an accepted document.
-/

namespace GraphQLSyntax

variable {text : String} {k k' m : Cursor}

/-! ## Parts of slices -/

namespace Part.WrittenIn

variable {p : Part} {span : Span} {tail : List Char}

/-- A part of a text stands where its slice does, if the text ends there or a closing brace
follows. -/
theorem sliced (h : p.WrittenIn text) (hspan : span ∈ p.span?)
    (hm : m.rest = (span.slice text).toList ++ tail) (htail : IsCut tail) :
    ∃ m', (p.map .forget).LaidOut .reading .forget m m' ∧ m'.rest = tail := by
  obtain ⟨k, pieces, k', hk, hlaid, hspelled⟩ := h
  have hrest := hspelled.rest_eq hlaid hk hspan
  obtain ⟨first, others, rfl⟩ := List.exists_cons_of_ne_nil hspelled.ne_nil
  obtain ⟨pieces', m', hlaid', hpieces, hend⟩ := hlaid.skipTrivia.cut hrest hm htail
  exact ⟨m', ⟨pieces', hlaid', hpieces ▸ hspelled.map⟩, hend⟩

/-- A part of a text makes up its slice. -/
theorem slice (h : p.WrittenIn text) (hspan : span ∈ p.span?) :
    ∃ m', (p.map .forget).LaidOut .reading .forget (.ofText (span.slice text)) m' ∧
      m'.ahead = .eof := by
  have htext : (Cursor.ofText (span.slice text)).rest = (span.slice text).toList ++ [] :=
    (List.append_nil _).symm
  obtain ⟨m', hlaid, hend⟩ := h.sliced hspan htext (by simp [IsCut])
  exact ⟨m', hlaid, m'.ahead_of_ignorable (by simp [hend])⟩

end Part.WrittenIn

/-! ## Types and values -/

/-- A text is read as a whole where it is read up to its end. -/
theorem Reader.Gives.whole {α : Type} {part : Reader α} {P : α → Prop}
    (h : part.Gives (.ofText text) k' P) (hknown : (Cursor.ofText text).ahead ≠ .unknown)
    (hend : k'.ahead = .eof) : ∃ a r, Reader.whole part (.ofText text) = .ok (a, r) ∧ P a := by
  obtain ⟨a, ha, hP⟩ := h
  exact ⟨a, _, Reader.whole_eq_ok.mpr ⟨hknown, ha, hend⟩, hP⟩

/-- The slice of a type is parsed as that type. -/
theorem TypeRef.parse_slice {t : TypeRef} (h : (Part.node (.typeRef t)).WrittenIn text) :
    ∃ t', TypeRef.parse (t.span.slice text) = .ok t' ∧ t'.map .forget = t.map .forget := by
  obtain ⟨m', hlaid, hend⟩ := h.slice rfl
  have hgives := Reader.gives_typeRef Convention.counted_reading hlaid (by rw [hend]; decide)
  obtain ⟨t', r, hread, ht'⟩ := hgives.whole hlaid.ahead_known.2 hend
  exact ⟨t', TypeRef.parse_eq_ok.mpr ⟨r, hread⟩, ht'⟩

/-- The slice of a value is parsed as that value, if it keeps where it stands. -/
theorem Value.parse_slice {v : Value} {span : Span} (h : (Part.node (.value v)).WrittenIn text)
    (hspan : span ∈ v.span?) :
    ∃ v', Value.parse (span.slice text) = .ok v' ∧ v'.map .forget = v.map .forget := by
  obtain ⟨m', hlaid, hend⟩ := h.slice hspan
  have hgives := Reader.gives_value hlaid (by rw [hend]; decide)
  obtain ⟨v', r, hread, hv'⟩ := hgives.whole hlaid.ahead_known.2 hend
  exact ⟨v', Value.parse_eq_ok.mpr ⟨r, hread⟩, hv'⟩

/-- The text of a scalar is parsed as that scalar. -/
theorem Value.parse_text {token : Token}
    (h : (Part.node (.value (.scalar token))).WrittenIn text) :
    ∃ v, Value.parse token.text = .ok v ∧ v.map .forget = (Value.scalar token).map .forget := by
  have htoken : (Part.token token).WrittenIn text := h.part _ List.mem_cons_self
  have hslice : token.span.slice text = token.text := by
    rw [Span.slice, htoken.placed.token_text token rfl, Option.getD_some]
  rw [← hslice]
  exact Value.parse_slice h rfl

/-! ## Definitions -/

/-- The slice of a definition is parsed as that definition. -/
theorem Definition.parse_slice {x : Definition} (h : (Part.node x.node).WrittenIn text) :
    ∃ d, Document.parse (x.span.slice text) = .ok d ∧
      d.erased.definitions = [x.map .forget] := by
  have hspan : x.span ∈ (Part.node x.node).span? := by cases x <;> rfl
  obtain ⟨m', hlaid, hend⟩ := h.slice hspan
  have hitem : (Part.node x.node).map .forget = .node (x.map .forget).node := by cases x <;> rfl
  rw [hitem] at hlaid
  exact Document.parse_of_laidOut_single Convention.counted_reading hlaid.item hend

/-! ## Selections -/

namespace Part.WrittenIn

theorem wellFormed {n : Node} (h : (Part.node n).WrittenIn text) : n.WellFormed := by
  obtain ⟨_, _, _, -, -, hspelled⟩ := h
  cases hspelled with
  | node hn => exact hn

end Part.WrittenIn

/-- A part is written in a text. Where it is a selection, it leaves room for the set around it. -/
structure Part.NestedIn (text : String) (p : Part) : Prop where
  written : p.WrittenIn text
  room : ∀ s, p = .node (.selection s) → s.depth < Reader.maxSelectionDepth

/-- What a nested part is made of is nested, too. -/
theorem Part.NestedIn.part {p : Part} (h : p.NestedIn text) : ∀ q ∈ p.parts, q.NestedIn text := by
  refine fun q hq => ⟨h.written.part q hq, ?_⟩
  rintro s rfl
  cases p with
  | token t => cases hq
  | sigilName sigil t => cases hq
  | node n =>
    have hn := h.written.wellFormed
    cases n with
    | operation o =>
      have hs : s ∈ o.selections := by simpa [parts, Node.parts] using hq
      exact Nat.lt_of_lt_of_le (Selection.depth_lt_setDepth hs) hn.2
    | fragment f =>
      have hs : s ∈ f.selections := by simpa [parts, Node.parts] using hq
      exact Nat.lt_of_lt_of_le (Selection.depth_lt_setDepth hs) hn.2.2.2
    | selection s' => exact Nat.lt_trans (Selection.depth_lt_of_part hq) (h.room s' rfl)
    | argument a => cases hvalue : a.value <;> simp [parts, Node.parts, hvalue] at hq
    | value v => cases v <;> simp [parts, Node.parts, Node.valueParts] at hq
    | _ => simp [parts, Node.parts] at hq

section

variable {σ : Convention} {g : Position → Position}

/-- Items stand between two braces. -/
theorem Item.LaidOut.braced {items : List Item}
    (hopen : (Terminal.lexeme .curlyOpen "\x7b").LaidAt k)
    (h : Item.LaidOut σ g items (k.behind (.lexeme .curlyOpen "\x7b")) k')
    (hclose : (Terminal.lexeme .curlyClose "\x7d").LaidAt k') :
    Item.LaidOut σ g (Item.braced items) k (k'.behind (.lexeme .curlyClose "\x7d")) := by
  obtain ⟨pieces, hlaid, hspelled⟩ := h
  have hpieces := (Laid.single hopen).append (hlaid.append (.single hclose))
  refine ⟨_, hpieces, ?_⟩
  rw [List.map_append, List.map_append]
  exact .terminal _ _ (hspelled.append (.terminal _ _ .nil))

/-- A node stands where the items of one of its rules stand, if it covers them. -/
theorem Part.LaidOut.of_rule {n : Node} {items : List Item} (hn : n.WellFormed)
    (hrule : Rule σ n items) (h : Item.LaidOut σ g items k k')
    (hspan : ∀ span ∈ n.span?, span = Span.map g ⟨k.skipTrivia.position, k'.position⟩) :
    (Part.node n).LaidOut σ g k k' := by
  obtain ⟨pieces, hlaid, hspelled⟩ := h
  refine ⟨pieces, hlaid, .node hn hrule hspelled fun span hmem => ?_⟩
  rw [hspan span hmem]
  refine (hlaid.covers ?_).map
  rintro rfl
  exact hrule.pieces_ne_nil hspelled rfl

/-- Selections between braces are a query. -/
theorem Part.LaidOut.shorthand {ss : List Selection}
    (h : Item.LaidOut σ g (Item.braced (ss.map Selection.item)) k k')
    (hdepth : Selection.setDepth ss ≤ Reader.maxSelectionDepth) :
    (Part.node (.operation ⟨none, ss, Span.map g ⟨k.skipTrivia.position, k'.position⟩⟩)).LaidOut
      σ g k k' :=
  .of_rule ⟨by simp, hdepth⟩ (.shorthand ss _) h (by rintro _ ⟨⟩; rfl)

end

/-- The slice of a selection between braces is parsed as a query of that selection. -/
theorem Selection.parse_braced {s : Selection} (h : (Part.node (.selection s)).NestedIn text) :
    ∃ d, Document.parse ("\x7b" ++ s.span.slice text ++ "\x7d") = .ok d ∧
      d.erased.definitions = [.operation ⟨none, [s.map .forget], ⟨.start, .start⟩⟩] := by
  have htext : (Cursor.ofText ("\x7b" ++ s.span.slice text ++ "\x7d")).rest =
      '{' :: ((s.span.slice text).toList ++ ['}']) := by
    simp [Cursor.ofText]
  have hstands : (Terminal.lexeme .curlyOpen "\x7b").Stands
      ((s.span.slice text).toList ++ ['}']) := Terminal.stands_single (c := '{') rfl _
  obtain ⟨hopen, hrest⟩ := hstands.laidAt_start htext
  obtain ⟨m', hlaid, hend⟩ := h.written.sliced rfl hrest (by simp [IsCut, Lexical.apart])
  have hstands' : (Terminal.lexeme .curlyClose "\x7d").Stands [] :=
    Terminal.stands_single (c := '}') rfl []
  obtain ⟨hclose, hlast⟩ := hstands'.laidAt_start hend
  have hbraced : Item.LaidOut .reading .forget
      (Item.braced ([s.map .forget].map Selection.item)) _ _ :=
    .braced hopen hlaid.item hclose
  refine Document.parse_of_laidOut_single Convention.counted_reading
    (Part.LaidOut.shorthand hbraced ?_).item (Cursor.ahead_of_ignorable (by simp [hlast]))
  have hroom := h.room s rfl
  rw [Selection.setDepth, Selection.setDepth, Selection.depth_map]
  omega

/-! ## Documents -/

namespace Document

variable {d : Document}

/-- **Slices are parsed as what was sliced.** In an accepted text, the slice of a definition is
parsed as a document of that definition alone, the slice of a type as that type and the slice of a
list as that list. The text of a scalar is parsed as that scalar, and the slice of a selection
between braces as a query that selects nothing else. Only positions differ. -/
theorem slices_of_parse (h : Document.parse text = .ok d) :
    (∀ x ∈ d.definitions, ∃ d', Document.parse (x.span.slice text) = .ok d' ∧
      d'.erased.definitions = [x.map .forget]) ∧
    ∀ p ∈ d.parts,
      (∀ t, p.Contains (.node (.typeRef t)) → ∃ t', TypeRef.parse (t.span.slice text) = .ok t' ∧
        t'.map .forget = t.map .forget) ∧
      (∀ items span, p.Contains (.node (.value (.list items span))) →
        ∃ v, Value.parse (span.slice text) = .ok v ∧
          v.map .forget = (Value.list items span).map .forget) ∧
      (∀ token, p.Contains (.node (.value (.scalar token))) →
        ∃ v, Value.parse token.text = .ok v ∧ v.map .forget = (Value.scalar token).map .forget) ∧
      ∀ s, p.Contains (.node (.selection s)) →
        ∃ d', Document.parse ("\x7b" ++ s.span.slice text ++ "\x7d") = .ok d' ∧
          d'.erased.definitions =
            [.operation ⟨none, [s.map .forget], ⟨.start, .start⟩⟩] := by
  obtain ⟨pieces, k, hspelled⟩ := spelled_of_parse h
  have hnested {p q : Part} (hp : p ∈ d.parts) (hq : p.Contains q) : q.NestedIn text := by
    refine Part.contains_induction (fun _ hp => hp.part) hq ⟨hspelled.writtenIn p hp, ?_⟩
    rintro s rfl
    obtain ⟨x, -, hx⟩ := List.mem_map.mp hp
    cases x <;> cases hx
  exact ⟨fun x hx => Definition.parse_slice (hspelled.writtenIn _ (List.mem_map_of_mem hx)),
    fun p hp => ⟨fun t ht => TypeRef.parse_slice (hnested hp ht).written,
      fun items span hv => Value.parse_slice (hnested hp hv).written rfl,
      fun token htoken => Value.parse_text (hnested hp htoken).written,
      fun s hs => Selection.parse_braced (hnested hp hs)⟩⟩

/-- A query with a comment in it, in front of a fragment without braces. -/
theorem slices_of_parse_query : ∃ text d,
    text = "query Q($x: [T!] = [1]) \x7b a: b \x7b c # d\n \x7d ...F \x7d fragment F on T" ∧
      Document.parse text = .ok d ∧
      (∀ x ∈ d.definitions, ∃ d', Document.parse (x.span.slice text) = .ok d' ∧
        d'.erased.definitions = [x.map .forget]) ∧
      ∀ p ∈ d.parts, ∀ s, p.Contains (.node (.selection s)) →
        ∃ d', Document.parse ("\x7b" ++ s.span.slice text ++ "\x7d") = .ok d' ∧
          d'.erased.definitions = [.operation ⟨none, [s.map .forget], ⟨.start, .start⟩⟩] := by
  refine ⟨"query Q($x: [T!] = [1]) \x7b a: b \x7b c # d\n \x7d ...F \x7d fragment F on T", ?_⟩
  have hok : (Document.parse
      "query Q($x: [T!] = [1]) \x7b a: b \x7b c # d\n \x7d ...F \x7d fragment F on T").isOk := by
    decide +kernel
  cases hparse : Document.parse
      "query Q($x: [T!] = [1]) \x7b a: b \x7b c # d\n \x7d ...F \x7d fragment F on T" with
  | error e =>
    rw [hparse] at hok
    cases hok
  | ok d =>
    obtain ⟨hdefinitions, hparts⟩ := slices_of_parse hparse
    exact ⟨d, rfl, rfl, hdefinitions, fun p hp => (hparts p hp).2.2.2⟩

end Document

end GraphQLSyntax
