import GraphQLSyntax.Proofs.Grammar.LaidOut
import GraphQLSyntax.Proofs.Grammar.Sound.Document
import GraphQLSyntax.Proofs.Tree.Mask

/-!
# Accepted trees are well-formed

* `Node.WellFormedIn`: all that may be relied on in a node of an accepted tree.
* `Rule.guarded`: behind every selection stands something that starts with no brace.
* `Part.StandsIn`: a part stands in a text, and a selection has no brace behind it. This goes over
  to what the part is made of.
* `Document.wellFormed_of_parse`: the nodes of what is accepted are well-formed in its text.
-/

namespace GraphQLSyntax

variable {σ : Convention} {g : Position → Position} {text : String} {k k' : Cursor}

/-! ## What may be relied on -/

/-- A text is a name: a letter or an underscore, and any number of letters, digits and
underscores. -/
def Text.IsName (text : String) : Prop := ∃ c cs, text.toList = c :: cs ∧
  (c.isAlpha ∨ c = '_') ∧ ∀ d ∈ cs, d.isAlphanum ∨ d = '_'

/-- A token is a name, and its text is one. -/
def Token.IsName (t : Token) : Prop := t.lexeme = .name ∧ Text.IsName t.text

/-- The first lexeme behind a span does not start with the character `c`. -/
def Span.NotBefore (text : String) (c : Char) (span : Span) : Prop :=
  ∃ rest, Text.dropBytes? span.stop.byteOffset text.toList = some rest ∧
    ∀ gap cs, Gap gap (c :: cs) → rest ≠ gap ++ c :: cs

/-- What may be relied on in a node of a tree that is read from `text`. -/
def Node.WellFormedIn (text : String) : Node → Prop
  | operation o =>
    (o.keyword = none → o.kind = .query ∧ o.name = none ∧ o.variableDefinitions = [] ∧
      o.directives = []) ∧
    (∀ keyword ∈ o.keyword, OperationKind.ofLexeme? keyword.lexeme = some o.kind ∧
      keyword.lexeme.spelling? = some keyword.text) ∧
    (∀ name ∈ o.name, name.IsName) ∧ Selection.setDepth o.selections ≤ 64
  | fragment f => f.name.IsName ∧ f.name.text ≠ "on" ∧ f.typeCondition.IsName ∧
    Selection.setDepth f.selections ≤ 64
  | variableDefinition v => v.name.IsName
  | typeRef t => t.name.IsName ∧ t.dimensions ≤ 63 ∧ t.mask < 2 ^ (t.dimensions + 1)
  | directive d => d.name.IsName
  | argument a => a.name.IsName
  | reference variableName => variableName.IsName ∧ variableName.type = some .variableName
  | value (.scalar token) => token.IsLiteral
  | value (.list items span) => (Value.list items span).listDepth ≤ 64
  | value (.boolean _) | value .null => True
  | selection (.field aliasName name _ _ selections span) => (∀ t ∈ aliasName, t.IsName) ∧
    name.IsName ∧ (selections = [] → span.NotBefore text '{')
  | selection (.fragmentSpread name _ _) => name.IsName ∧ name.text ≠ "on"
  | selection (.inlineFragment typeCondition _ selections _) =>
    (∀ t ∈ typeCondition, t.IsName) ∧ selections ≠ []

/-! ## Names -/

theorem Text.isName_of_classify {name : String} {rest : List Char}
    (h : Lexical.classify (name.toList ++ rest) = (.name, name.toList)) : IsName name := by
  obtain ⟨c, cs, hname, hc, hcs⟩ := Lexical.isName_of_classify h
  refine ⟨c, cs, hname, by simpa [Lexical.isNameStart] using hc, fun d hd => ?_⟩
  simpa [Lexical.isNamePart] using hcs d hd

/-- A name that stands in a text is one. -/
theorem Part.LaidOut.isName {t : Token} (h : (Part.token t).LaidOut σ g k k')
    (ht : t.lexeme = .name) : t.IsName := by
  have hterminal : t.terminal = .lexeme .name t.text := by
    unfold Token.terminal
    rw [ht]
  have hstands := h.token.1.stands
  rw [hterminal] at hstands
  exact ⟨ht, Text.isName_of_classify hstands.1⟩

/-- The name behind a sigil is one. -/
theorem Part.LaidOut.isName_sigilName {sigil : Char} {t : Token}
    (h : (Part.sigilName sigil t).LaidOut σ g k k') (ht : t.lexeme = .name) : t.IsName :=
  ⟨ht, Text.isName_of_classify h.sigilName.1.stands.2⟩

/-! ## What stands behind selections -/

namespace Item

/-- Whether an item is a selection. -/
def isSelection : Item → Bool
  | part (.node (.selection _)) => true
  | _ => false

/-- Behind every selection stands an item, and this item starts with no brace. -/
def Guarded : List Item → Prop
  | [] => True
  | item :: items => (item.isSelection → ∃ next ∈ items.head?, Lexeme.curlyOpen ∉ next.firsts) ∧
    Guarded items

variable {items items' : List Item} {α : Type}

theorem guarded_of_forall (h : ∀ item ∈ items, item.isSelection = false) : Guarded items := by
  induction items with
  | nil => trivial
  | cons item items ih =>
    rw [List.forall_mem_cons] at h
    exact ⟨by simp [h.1], ih h.2⟩

/-- Items that are no selections may stand in front. -/
theorem Guarded.append (items : List Item) (h : ∀ item ∈ items, item.isSelection = false)
    (h' : Guarded items') : Guarded (items ++ items') := by
  induction items with
  | nil => exact h'
  | cons item items ih =>
    rw [List.forall_mem_cons] at h
    exact ⟨by simp [h.1], ih h.2⟩

/-- A selection in a set has the next one behind it, or the end of the set. -/
theorem guarded_braced (selections : List Selection) :
    Guarded (braced (selections.map Selection.item)) := by
  refine ⟨by rintro ⟨⟩, ?_⟩
  induction selections with
  | nil => exact ⟨by rintro ⟨⟩, trivial⟩
  | cons s rest ih =>
    refine ⟨fun _ => ?_, ih⟩
    cases rest with
    | nil => exact ⟨_, rfl, by simp⟩
    | cons s' rest => exact ⟨_, rfl, by simp⟩

/-- What stands behind a selection. -/
theorem Guarded.behind {s : Selection} (h : Guarded (items ++ s.item :: items')) :
    ∃ next rest, items' = next :: rest ∧ Lexeme.curlyOpen ∉ next.firsts := by
  induction items with
  | nil =>
    obtain ⟨next, hnext, hfirsts⟩ := h.1 rfl
    obtain ⟨rest, rfl⟩ := List.head?_eq_some_iff.mp hnext
    exact ⟨next, rest, rfl, hfirsts⟩
  | cons item items ih => exact ih h.2

theorem isSelection_map {f : α → Item} (hf : ∀ a, (f a).isSelection = false) (as : List α) :
    ∀ item ∈ as.map f, item.isSelection = false := by simpa using fun a _ => hf a

end Item

theorem InParentheses.isSelection {items written : List Item} (h : InParentheses items written)
    (hitems : ∀ item ∈ items, item.isSelection = false) :
    ∀ item ∈ written, item.isSelection = false := by
  cases h with
  | absent => simp
  | present =>
    simpa [Item.parenthesised, Item.word, Item.isSelection, or_imp, forall_and] using hitems

theorem DefinitionBody.guarded {selections : List Selection} {items : List Item}
    (h : DefinitionBody σ selections items) : Item.Guarded items := by
  cases h with
  | absent => trivial
  | present => exact Item.guarded_braced selections

theorem guarded_fieldBody (selections : List Selection) : Item.Guarded (fieldBody selections) := by
  unfold fieldBody
  split
  · trivial
  · exact Item.guarded_braced selections

/-- Selections are written between braces only. -/
theorem Rule.guarded {n : Node} {items : List Item} (h : Rule σ n items) : Item.Guarded items := by
  have hdirectives (ds : List Directive) := Item.isSelection_map (f := Directive.item)
    (fun _ => rfl) ds
  cases h with
  | shorthand selections => exact Item.guarded_braced selections
  | operation header selections span hvariables hbody =>
    refine Item.Guarded.append [_] (by simp [Token.item, Item.isSelection]) ?_
    refine .append _ (Item.isSelection_map (fun _ => rfl) _) ?_
    refine .append _ (hvariables.isSelection (Item.isSelection_map (fun _ => rfl) _)) ?_
    exact .append _ (hdirectives _) hbody.guarded
  | fragment f hbody =>
    refine Item.Guarded.append [_, _, _, _]
      (by simp [Item.keyword, Item.word, Token.item, Item.isSelection]) ?_
    exact .append _ (hdirectives _) hbody.guarded
  | field aliasName name arguments directives selections span harguments =>
    refine .append _ ?_ (Item.Guarded.append [_] ?_ ?_)
    · cases aliasName <;> simp [Item.word, Token.item, Item.isSelection]
    · simp [Token.item, Item.isSelection]
    · refine .append _ (harguments.isSelection (Item.isSelection_map (fun _ => rfl) _)) ?_
      exact .append _ (hdirectives _) (guarded_fieldBody selections)
  | inlineFragment typeCondition directives selections span =>
    refine Item.Guarded.append [_] (by simp [Item.isSelection]) (.append _ ?_ ?_)
    · cases typeCondition <;> simp [Item.keyword, Item.word, Token.item, Item.isSelection]
    · exact .append _ (hdirectives _) (Item.guarded_braced selections)
  | variableDefinition v =>
    refine Item.guarded_of_forall ?_
    cases v.default <;>
      simp [Item.word, TypeRef.item, Value.item, Directive.item, Item.isSelection]
  | @typeRef t brackets =>
    refine Item.guarded_of_forall ?_
    cases brackets <;>
      simp [Item.openings, Item.word, Token.item, Item.isSelection, or_imp, forall_and]
  | directive d harguments =>
    exact .append [_] (by simp [Item.isSelection])
      (Item.guarded_of_forall (harguments.isSelection (Item.isSelection_map (fun _ => rfl) _)))
  | argument a =>
    refine Item.guarded_of_forall ?_
    cases a.value <;>
      simp [Token.item, Item.word, ArgumentValue.item, Value.item, Item.isSelection]
  | list items =>
    refine Item.guarded_of_forall ?_
    simp [Value.item, Item.word, Item.isSelection, or_imp, forall_and]
  | fragmentSpread name directives =>
    exact .append [_, _] (by simp [Token.item, Item.isSelection])
      (Item.guarded_of_forall (hdirectives _))
  | _ =>
    refine Item.guarded_of_forall ?_
    simp [Item.keyword, Item.word, Token.item, Item.isSelection]

/-! ## Parts of accepted trees -/

/-- A part stands in a text. Behind a selection stands no brace. -/
def Part.StandsIn (text : String) (p : Part) : Prop := ∃ k k', k.Reaches text ∧
  p.LaidOut .reading id k k' ∧ ∀ s, p = .node (.selection s) → k'.ahead ≠ .curlyOpen

/-- The parts among some guarded items stand where the items do. -/
theorem Item.LaidOut.standsIn {items : List Item} {p : Part}
    (h : Item.LaidOut .reading id items k k') (hk : k.Reaches text) (hguarded : Item.Guarded items)
    (hp : p ∈ items.filterMap Item.part?) : p.StandsIn text := by
  obtain ⟨item, hmem, hitem⟩ := List.mem_filterMap.mp hp
  obtain rfl : item = .part p := by
    cases item <;> cases hitem
    rfl
  obtain ⟨before, behind, rfl⟩ := List.append_of_mem hmem
  obtain ⟨k₁, hbefore, h⟩ := h.append
  obtain ⟨k₂, hpart, hbehind⟩ := h.part
  refine ⟨k₁, k₂, hbefore.reaches hk, hpart, ?_⟩
  rintro s rfl
  obtain ⟨next, rest, rfl, hnext⟩ := hguarded.behind
  exact fun hahead => hnext (hahead ▸ hbehind.ahead_mem)

namespace Part.StandsIn

variable {n : Node} {t : Token}

/-- What a part is made of stands in the text, too. -/
theorem part {p : Part} (h : p.StandsIn text) : ∀ q ∈ p.parts, q.StandsIn text := by
  intro q hq
  obtain ⟨k, k', hk, hlaid, -⟩ := h
  cases p with
  | token t => cases hq
  | sigilName sigil t => cases hq
  | node n =>
    obtain ⟨-, ⟨items, hrule, hitems⟩, -⟩ := hlaid.node
    rw [parts, ← hrule.parts_eq] at hq
    exact hitems.standsIn hk hrule.guarded hq

theorem isName (h : (Part.node n).StandsIn text) (ht : .token t ∈ n.parts)
    (hname : t.lexeme = .name) : t.IsName := by
  obtain ⟨_, _, -, hlaid, -⟩ := h.part _ ht
  exact hlaid.isName hname

theorem isName_sigilName (sigil : Char) (h : (Part.node n).StandsIn text)
    (ht : .sigilName sigil t ∈ n.parts) (hname : t.lexeme = .name) : t.IsName := by
  obtain ⟨_, _, -, hlaid, -⟩ := h.part _ ht
  exact hlaid.isName_sigilName hname

theorem wellFormed (h : (Part.node n).StandsIn text) : n.WellFormed := by
  obtain ⟨_, _, -, hlaid, -⟩ := h
  exact hlaid.node.1

/-- No gap leads from a selection to a brace. -/
theorem notBefore {s : Selection} (h : (Part.node (.selection s)).StandsIn text) :
    s.span.NotBefore text '{' := by
  obtain ⟨k, k', hk, hlaid, hahead⟩ := h
  obtain ⟨before, htext, hoffset⟩ := hlaid.reaches hk
  have hspan := hlaid.node.2.2 s.span rfl
  refine ⟨k'.rest, ?_, fun gap cs hgap hrest => hahead s rfl ?_⟩
  · rw [htext, ← hspan]
    show Text.dropBytes? k'.position.byteOffset _ = _
    rw [hoffset, Text.dropBytes?_append]
  · have hskip := k'.rest_skipTrivia_of_gap hrest hgap (by rintro c ⟨⟩; decide)
    rw [Cursor.ahead, Scanner.ofCursor, hskip]
    rfl

/-- The nodes that stand in a text are well-formed in it. -/
theorem wellFormedIn (h : (Part.node n).StandsIn text) : n.WellFormedIn text := by
  have hn := h.wellFormed
  cases n with
  | operation o =>
    obtain ⟨header, selections, span⟩ := o
    refine ⟨?_, ?_, ?_, hn.2⟩
    · intro hheader
      obtain rfl : header = none := Option.map_eq_none_iff.mp hheader
      exact ⟨rfl, rfl, rfl, rfl⟩
    · intro keyword hkeyword
      obtain ⟨header, rfl, rfl⟩ := Option.map_eq_some_iff.mp hkeyword
      exact ⟨(hn.1 header rfl).1, (hn.1 header rfl).2.1⟩
    · intro name hname
      obtain ⟨header, rfl, hname'⟩ := Option.bind_eq_some_iff.mp hname
      refine h.isName ?_ ((hn.1 header rfl).2.2.2 name hname').1
      simp [Node.parts, Operation.name, hname']
  | fragment f =>
    exact ⟨h.isName (by simp [Node.parts]) hn.1.1, hn.2.1,
      h.isName (by simp [Node.parts]) hn.2.2.1.1, hn.2.2.2⟩
  | variableDefinition v => exact h.isName_sigilName '$' (by simp [Node.parts]) hn.1
  | typeRef t =>
    exact ⟨h.isName (by simp [Node.parts]) hn.1.1, Nat.le_of_lt_succ hn.2, t.wrapping.mask_lt⟩
  | directive d => exact h.isName_sigilName '@' (by simp [Node.parts]) hn.1
  | argument a => exact h.isName (by simp [Node.parts]) hn.1
  | reference variableName =>
    exact ⟨h.isName_sigilName '$' (by simp [Node.parts]) hn.1, hn.2⟩
  | value v => cases v <;> exact hn
  | selection s =>
    cases s with
    | field aliasName name arguments directives selections span =>
      refine ⟨fun t ht => h.isName ?_ (hn.1 t ht).1, h.isName ?_ hn.2.1, fun _ => h.notBefore⟩
      · obtain rfl : aliasName = some t := ht
        simp [Node.parts, Node.selectionParts]
      · simp [Node.parts, Node.selectionParts]
    | fragmentSpread name directives span =>
      exact ⟨h.isName (by simp [Node.parts, Node.selectionParts]) hn.1.1, hn.2⟩
    | inlineFragment typeCondition directives selections span =>
      refine ⟨fun t ht => h.isName ?_ (hn.1 t ht).1, hn.2⟩
      obtain rfl : typeCondition = some t := ht
      simp [Node.parts, Node.selectionParts]

end Part.StandsIn

/-! ## Whole texts -/

/-- The items of a text that is read as a whole stand in it, up to its end. -/
theorem Reader.Reads.laidOut_of_whole {α : Type} {part : Reader α} {item : α → Item} {a : α}
    {r : Reading} (h : part.Reads fun a items _ => items = [item a])
    (hr : whole part (.ofText text) = .ok (a, r)) :
    ∃ k, Item.LaidOut .reading id [item a] (.ofText text) k ∧ k.ahead = .eof := by
  obtain ⟨-, hpart, hend⟩ := whole_eq_ok.mp hr
  obtain ⟨k, _, pieces, rfl, hlaid, hspelled, rfl⟩ := h _ a r hpart
  exact ⟨k, hspelled.laidOut hlaid, hend⟩

theorem TypeRef.laidOut_of_parse {t : TypeRef} (h : TypeRef.parse text = .ok t) :
    ∃ k, (Part.node (.typeRef t)).LaidOut .reading id (.ofText text) k ∧ k.ahead = .eof := by
  obtain ⟨r, hr⟩ := parse_eq_ok.mp h
  obtain ⟨k, hlaid, hend⟩ := Reader.reads_typeRef.laidOut_of_whole hr
  exact ⟨k, hlaid.single, hend⟩

theorem Value.laidOut_of_parse {v : Value} (h : Value.parse text = .ok v) :
    ∃ k, (Part.node (.value v)).LaidOut .reading id (.ofText text) k ∧ k.ahead = .eof := by
  obtain ⟨r, hr⟩ := parse_eq_ok.mp h
  obtain ⟨k, hlaid, hend⟩ := Reader.reads_value.laidOut_of_whole hr
  exact ⟨k, hlaid.single, hend⟩

theorem TypeRef.standsIn_of_parse {t : TypeRef} (h : TypeRef.parse text = .ok t) :
    (Part.node (.typeRef t)).StandsIn text := by
  obtain ⟨k, hlaid, -⟩ := laidOut_of_parse h
  exact ⟨_, k, Cursor.reaches_ofText text, hlaid, by rintro s ⟨⟩⟩

theorem Value.standsIn_of_parse {v : Value} (h : Value.parse text = .ok v) :
    (Part.node (.value v)).StandsIn text := by
  obtain ⟨k, hlaid, -⟩ := laidOut_of_parse h
  exact ⟨_, k, Cursor.reaches_ofText text, hlaid, by rintro s ⟨⟩⟩

theorem Definition.isSelection_item (x : Definition) : x.item.isSelection = false := by
  cases x <;> rfl

namespace Document

theorem standsIn_of_parse {d : Document} (h : Document.parse text = .ok d) :
    ∀ p ∈ d.parts, p.StandsIn text := by
  intro p hp
  obtain ⟨pieces, k, hspelled⟩ := spelled_of_parse h
  rw [parts, ← filterMap_part?] at hp
  exact (hspelled.spelled.laidOut hspelled.laid).standsIn (Cursor.reaches_ofText text)
    (Item.guarded_of_forall (Item.isSelection_map Definition.isSelection_item _)) hp

/-- **Accepted trees are well-formed.** So are all nodes of an accepted document, and all nodes of
what is accepted as a type or as a value. -/
theorem wellFormed_of_parse (text : String) :
    (∀ d, Document.parse text = .ok d → ∀ p ∈ d.parts, ∀ n, p.Contains (.node n) →
      n.WellFormedIn text) ∧
    (∀ t, TypeRef.parse text = .ok t → (Node.typeRef t).WellFormedIn text) ∧
    ∀ v, Value.parse text = .ok v → ∀ n, (Part.node (.value v)).Contains (.node n) →
      n.WellFormedIn text := by
  refine ⟨fun d h p hp n hn => ?_, fun t h => (TypeRef.standsIn_of_parse h).wellFormedIn,
    fun v h n hn => ?_⟩
  · exact (Part.contains_induction (fun _ => Part.StandsIn.part) hn
      (standsIn_of_parse h p hp)).wellFormedIn
  · exact (Part.contains_induction (fun _ => Part.StandsIn.part) hn
      (Value.standsIn_of_parse h)).wellFormedIn

/-- A query with an alias, a variable, a field without selections and an inline fragment; a type
with two marks; a list of values. -/
theorem wellFormed_of_parse_query : ∃ text d t v,
    text = "query Q($x: [Int!] = 1) \x7b a: b(x: $x) @c(y: E) ... on T \x7b c \x7d \x7d" ∧
      Document.parse text = .ok d ∧ d.parts.length = 1 ∧
      (∀ p ∈ d.parts, ∀ n, p.Contains (.node n) → n.WellFormedIn text) ∧
      TypeRef.parse "[Int!]!" = .ok t ∧ t.dimensions ≤ 63 ∧ t.mask < 2 ^ (t.dimensions + 1) ∧
      Value.parse "[1 [E]]" = .ok v ∧
      ∀ n, (Part.node (.value v)).Contains (.node n) → n.WellFormedIn "[1 [E]]" := by
  have hquery : ((Document.parse
      "query Q($x: [Int!] = 1) \x7b a: b(x: $x) @c(y: E) ... on T \x7b c \x7d \x7d").toOption.map
        fun d => d.parts.length) = some 1 := by
    decide +kernel
  have htype : (TypeRef.parse "[Int!]!").isOk = true := by decide +kernel
  have hvalue : (Value.parse "[1 [E]]").isOk = true := by decide +kernel
  cases hd : Document.parse
      "query Q($x: [Int!] = 1) \x7b a: b(x: $x) @c(y: E) ... on T \x7b c \x7d \x7d" with
  | error e =>
    rw [hd] at hquery
    cases hquery
  | ok d =>
    cases ht : TypeRef.parse "[Int!]!" with
    | error e =>
      rw [ht] at htype
      cases htype
    | ok t =>
      cases hv : Value.parse "[1 [E]]" with
      | error e =>
        rw [hv] at hvalue
        cases hvalue
      | ok v =>
        rw [hd] at hquery
        obtain ⟨-, hdimensions, hmask⟩ := (wellFormed_of_parse "[Int!]!").2.1 t ht
        exact ⟨_, d, t, v, rfl, hd, Option.some.inj hquery, (wellFormed_of_parse _).1 d hd, rfl,
          hdimensions, hmask, rfl, (wellFormed_of_parse _).2.2 v hv⟩

end Document

end GraphQLSyntax
