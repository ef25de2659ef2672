import GraphQLSyntax.Proofs.Tree.WellFormed

/-!
# How trees are written

The grammar, read as a relation between trees and the terminals that they are written with.

* `Terminal`: a word of the grammar, or a token.
* `Rule`: the terminals and the parts that a node is written with, in their order.
* `Convention`: what is left open about how trees are written.
* `Part.Spelled`: the terminals of a whole part, each at its place. `Node.Spelled` names the items
  of the rule that a node is written by.
* `Rule.parts_eq`: a rule has the parts of its node, in the same order.
* `Item.Spelled.mono`: what is written by one convention is written by a more liberal one,
  `Convention.Within`.
-/

namespace GraphQLSyntax

/-- A terminal of the grammar. Most are lexemes wherever they stand. The others are only looked for
where the grammar asks for them. -/
inductive Terminal where
  | lexeme (kind : Lexeme) (text : String)
  /-- A sigil and the name that touches it. -/
  | sigilName (sigil : Char) (name : String)
  /-- Three dots. -/
  | spread
  /-- An object literal, kept as its text. -/
  | object (text : String)
  /-- A bracket or a mark of a type. -/
  | mark (c : Char)
deriving DecidableEq, Repr, Inhabited

namespace Terminal

/-- The text of a terminal. -/
def chars : Terminal → List Char
  | lexeme _ text | object text => text.toList
  | sigilName sigil name => sigil :: name.toList
  | spread => ['.', '.', '.']
  | mark c => [c]

/-- Whether a terminal is a bracket or a mark of a type. -/
def isMark : Terminal → Bool
  | mark _ => true
  | _ => false

end Terminal

/-- A terminal at its place in a text. -/
structure Piece where
  terminal : Terminal
  span : Span
deriving DecidableEq, Repr, Inhabited

/-- The text of a piece. -/
def Piece.chars (p : Piece) : List Char := p.terminal.chars

/-- A span runs from the first of some pieces to the last. -/
def Covers (span : Span) (pieces : List Piece) : Prop :=
  pieces.head?.map (·.span.start) = some span.start ∧
    pieces.getLast?.map (·.span.stop) = some span.stop

/-- The terminal that a token is written as. Members of enums and keywords are names. -/
def Token.terminal (t : Token) : Terminal :=
  match t.lexeme with
  | .object => .object t.text
  | .enum | .query | .mutation | .subscription => .lexeme .name t.text
  | kind => .lexeme kind t.text

theorem Token.chars_terminal (t : Token) : t.terminal.chars = t.text.toList := by
  unfold Token.terminal
  split <;> rfl

/-- A plain name is written as a name. -/
theorem Token.IsPlainName.terminal_eq {t : Token} (h : t.IsPlainName) :
    t.terminal = .lexeme .name t.text := by
  unfold Token.terminal
  rw [h.1]

/-- One step of a rule. -/
inductive Item where
  | terminal (t : Terminal)
  | part (p : Part)

namespace Item

/-- A word of the grammar. -/
def word (kind : Lexeme) (text : String) : Item := .terminal (.lexeme kind text)

/-- The name `text`, where it has a meaning of its own. -/
def keyword (text : String) : Item := word .name text

/-- Whether an item has a terminal of its own: whether it is one, or a token. -/
def isLeaf : Item → Bool
  | part (.node _) => false
  | _ => true

/-- The part that an item is. -/
def part? : Item → Option Part
  | terminal _ => none
  | part p => some p

/-- Some items between braces. -/
def braced (items : List Item) : List Item :=
  word .curlyOpen "\x7b" :: (items ++ [word .curlyClose "\x7d"])

/-- Some items between parentheses. -/
def parenthesised (items : List Item) : List Item :=
  word .parenOpen "(" :: (items ++ [word .parenClose ")"])

end Item

def Token.item (t : Token) : Item := .part (.token t)

def TypeRef.item (t : TypeRef) : Item := .part (.node (.typeRef t))

def Value.item (v : Value) : Item := .part (.node (.value v))

def Argument.item (a : Argument) : Item := .part (.node (.argument a))

def Directive.item (d : Directive) : Item := .part (.node (.directive d))

def Selection.item (s : Selection) : Item := .part (.node (.selection s))

def VariableDefinition.item (v : VariableDefinition) : Item := .part (.node (.variableDefinition v))

def Definition.item (d : Definition) : Item := .part (.node d.node)

/-! ## Types -/

/-- The marks behind a type: any number, and some exactly where the type is marked. -/
def Marks (nonNull : Bool) (marks : List Char) : Prop :=
  (∀ c ∈ marks, c = '!') ∧ (nonNull = true ↔ marks ≠ [])

/-- The marks and closing brackets behind the name of a type, from the inside out. -/
inductive Wrapping.Closed : Wrapping → List Char → Prop where
  | named {nonNull : Bool} {marks : List Char} (h : Marks nonNull marks) :
    Closed (.named nonNull) marks
  | list {nonNull : Bool} {items : Wrapping} {closings marks : List Char}
    (hitems : Closed items closings) (h : Marks nonNull marks) :
    Closed (.list nonNull items) (closings ++ ']' :: marks)

/-- The opening brackets of a type: the first is a lexeme, the further ones are looked for behind
it. -/
def Item.openings : (brackets : Nat) → List Item
  | 0 => []
  | brackets + 1 => word .squareOpen "[" :: List.replicate brackets (.terminal (.mark '['))

/-! ## Rules -/

/-- `items` stand between parentheses, which may be left out around nothing. -/
inductive InParentheses : (items written : List Item) → Prop where
  | absent : InParentheses [] []
  | present (items : List Item) : InParentheses items (Item.parenthesised items)

/-- The selections of a field stand between braces, where there are any. -/
def fieldBody (selections : List Selection) : List Item :=
  if selections.isEmpty then [] else Item.braced (selections.map Selection.item)

/-- How an argument writes what it is given. -/
def ArgumentValue.item : ArgumentValue → Item
  | literal v => v.item
  | reference variableName => .part (.node (.reference variableName))

/-- What is left open about how trees are written. -/
structure Convention where
  /-- A number of opening brackets is counted as a number of lists. -/
  counts : (brackets lists : Nat) → Prop
  /-- A definition without selections may be written without braces. -/
  omitsBraces : Prop

namespace Convention

/-- How trees are read. The reader counts brackets with a number of limited size. -/
def reading : Convention := ⟨fun brackets lists => Reader.countedLists brackets = lists, True⟩

/-- How trees are read where every bracket counts. -/
def exact : Convention := ⟨Eq, True⟩

/-- How trees are printed. -/
def printing : Convention := ⟨Eq, False⟩

end Convention

section

variable (σ : Convention)

/-- The selections of a definition stand between braces. -/
inductive DefinitionBody : List Selection → List Item → Prop where
  | absent (h : σ.omitsBraces) : DefinitionBody [] []
  | present (selections : List Selection) :
    DefinitionBody selections (Item.braced (selections.map Selection.item))

/-- The terminals and the parts that a node is written with. -/
inductive Rule : Node → List Item → Prop where
  | shorthand (selections : List Selection) (span : Span) :
    Rule (.operation ⟨none, selections, span⟩) (Item.braced (selections.map Selection.item))
  | operation (header : OperationHeader) (selections : List Selection) (span : Span)
    {written body : List Item}
    (hvariables : InParentheses (header.variableDefinitions.map VariableDefinition.item) written)
    (hbody : DefinitionBody σ selections body) :
    Rule (.operation ⟨some header, selections, span⟩)
      (header.keyword.item :: (header.name.toList.map Token.item ++ (written ++
        (header.directives.map Directive.item ++ body))))
  | fragment (f : Fragment) {body : List Item} (hbody : DefinitionBody σ f.selections body) :
    Rule (.fragment f)
      (.keyword "fragment" :: f.name.item :: .keyword "on" :: f.typeCondition.item ::
        (f.directives.map Directive.item ++ body))
  | variableDefinition (v : VariableDefinition) :
    Rule (.variableDefinition v)
      (.part (.sigilName '$' v.name) :: .word .colon ":" :: v.type.item ::
        (v.default.toList.flatMap (fun x => [.word .equals "=", x.item]) ++
          v.directives.map Directive.item))
  | typeRef (t : TypeRef) {brackets : Nat} {closings : List Char}
    (hbrackets : σ.counts brackets t.dimensions) (hclosings : t.wrapping.Closed closings) :
    Rule (.typeRef t)
      (Item.openings brackets ++ t.name.item :: closings.map fun c => .terminal (.mark c))
  | directive (d : Directive) {arguments : List Item}
    (harguments : InParentheses (d.arguments.map Argument.item) arguments) :
    Rule (.directive d) (.part (.sigilName '@' d.name) :: arguments)
  | argument (a : Argument) :
    Rule (.argument a) [a.name.item, .word .colon ":", a.value.item]
  | reference (variableName : Token) :
    Rule (.reference variableName) [.part (.sigilName '$' variableName)]
  | true : Rule (.value (.boolean true)) [.keyword "true"]
  | false : Rule (.value (.boolean false)) [.keyword "false"]
  | null : Rule (.value .null) [.keyword "null"]
  | scalar (token : Token) : Rule (.value (.scalar token)) [token.item]
  | list (items : List Value) (span : Span) :
    Rule (.value (.list items span))
      (.word .squareOpen "[" :: (items.map Value.item ++ [.word .squareClose "]"]))
  | field (aliasName : Option Token) (name : Token) (arguments : List Argument)
    (directives : List Directive) (selections : List Selection) (span : Span)
    {written : List Item} (harguments : InParentheses (arguments.map Argument.item) written) :
    Rule (.selection (.field aliasName name arguments directives selections span))
      (aliasName.toList.flatMap (fun t => [t.item, .word .colon ":"]) ++ name.item ::
        (written ++ (directives.map Directive.item ++ fieldBody selections)))
  | fragmentSpread (name : Token) (directives : List Directive) (span : Span) :
    Rule (.selection (.fragmentSpread name directives span))
      (.terminal .spread :: name.item :: directives.map Directive.item)
  | inlineFragment (typeCondition : Option Token) (directives : List Directive)
    (selections : List Selection) (span : Span) :
    Rule (.selection (.inlineFragment typeCondition directives selections span))
      (.terminal .spread :: (typeCondition.toList.flatMap (fun t => [.keyword "on", t.item]) ++
        (directives.map Directive.item ++ Item.braced (selections.map Selection.item))))

mutual

/-- The pieces that a part is written with. -/
inductive Part.Spelled : Part → List Piece → Prop where
  | token (t : Token) (span : Span) (hspan : Covers t.span [⟨t.terminal, span⟩]) :
    Part.Spelled (.token t) [⟨t.terminal, span⟩]
  | sigilName (sigil : Char) (t : Token) (span : Span)
    (hspan : Covers t.span [⟨.sigilName sigil t.text, span⟩]) :
    Part.Spelled (.sigilName sigil t) [⟨.sigilName sigil t.text, span⟩]
  | node {n : Node} {items : List Item} {pieces : List Piece} (hn : n.WellFormed)
    (hrule : Rule σ n items) (hitems : Item.Spelled items pieces)
    (hspan : ∀ span ∈ n.span?, Covers span pieces) : Part.Spelled (.node n) pieces

/-- The pieces that some items are written with, one after the other. -/
inductive Item.Spelled : List Item → List Piece → Prop where
  | nil : Item.Spelled [] []
  | terminal (t : Terminal) (span : Span) {items : List Item} {pieces : List Piece}
    (h : Item.Spelled items pieces) : Item.Spelled (.terminal t :: items) (⟨t, span⟩ :: pieces)
  | part {p : Part} {items : List Item} {first pieces : List Piece} (hp : Part.Spelled p first)
    (h : Item.Spelled items pieces) : Item.Spelled (.part p :: items) (first ++ pieces)

end

end

/-! ## Sequences of items -/

theorem Item.map_mark (marks : List Char) :
    (marks.map fun c => Item.terminal (.mark c)) = (marks.map Terminal.mark).map .terminal := by
  rw [List.map_map]
  rfl

namespace Item.Spelled

variable {σ : Convention} {items items' : List Item} {pieces pieces' : List Piece}

theorem append (h : Item.Spelled σ items pieces) (h' : Item.Spelled σ items' pieces') :
    Item.Spelled σ (items ++ items') (pieces ++ pieces') := by
  induction items generalizing pieces with
  | nil =>
    cases h
    exact h'
  | cons item items ih =>
    cases h with
    | terminal t span h => exact .terminal t span (ih h)
    | part hp h =>
      rw [List.append_assoc]
      exact .part hp (ih h)

/-- Items in a row are written with pieces in a row. -/
theorem of_append (h : Item.Spelled σ (items ++ items') pieces) :
    ∃ first second, pieces = first ++ second ∧ Item.Spelled σ items first ∧
      Item.Spelled σ items' second := by
  induction items generalizing pieces with
  | nil => exact ⟨[], pieces, rfl, .nil, h⟩
  | cons item items ih =>
    rw [List.cons_append] at h
    cases h with
    | terminal t span h =>
      obtain ⟨first, second, rfl, h₁, h₂⟩ := ih h
      exact ⟨⟨t, span⟩ :: first, second, rfl, .terminal t span h₁, h₂⟩
    | @part p _ first _ hp h =>
      obtain ⟨front, second, rfl, h₁, h₂⟩ := ih h
      exact ⟨first ++ front, second, by rw [List.append_assoc], .part hp h₁, h₂⟩

theorem single {p : Part} (h : p.Spelled σ pieces) :
    Item.Spelled σ [.part p] pieces := by
  have := Item.Spelled.part h .nil
  rwa [List.append_nil] at this

theorem of_single {p : Part} (h : Item.Spelled σ [.part p] pieces) :
    p.Spelled σ pieces := by
  cases h with
  | part hp h =>
    cases h
    rwa [List.append_nil]

/-- Terminals are written as themselves, wherever they stand. -/
theorem terminals_iff {ts : List Terminal} :
    Item.Spelled σ (ts.map .terminal) pieces ↔ pieces.map (·.terminal) = ts := by
  induction ts generalizing pieces with
  | nil =>
    constructor
    · rintro ⟨⟩
      rfl
    · intro h
      rw [List.map_eq_nil_iff] at h
      exact h ▸ .nil
  | cons t ts ih =>
    constructor
    · rintro (_ | ⟨_, span, h⟩)
      rw [List.map_cons, ih.mp h]
    · intro h
      obtain ⟨p, ps, rfl, rfl, hps⟩ := List.map_eq_cons_iff.mp h
      exact .terminal _ _ (ih.mpr hps)

/-- Opening brackets are as many pieces. -/
theorem length_openings {brackets : Nat} (h : Item.Spelled σ (Item.openings brackets) pieces) :
    pieces.length = brackets := by
  cases brackets with
  | zero =>
    cases h
    rfl
  | succ brackets =>
    rw [Item.openings, ← List.map_replicate] at h
    obtain _ | ⟨_, span, h⟩ := h
    have hlength := congrArg List.length (terminals_iff.mp h)
    rw [List.length_map, List.length_replicate] at hlength
    rw [List.length_cons, hlength]

/-- Where a terminal or a token is among the items, there are pieces. -/
theorem ne_nil (h : Item.Spelled σ items pieces) (hitem : ∃ item ∈ items, item.isLeaf) :
    pieces ≠ [] := by
  induction items generalizing pieces with
  | nil =>
    obtain ⟨_, hmem, -⟩ := hitem
    cases hmem
  | cons item items ih =>
    cases h with
    | terminal t span h => exact List.cons_ne_nil _ _
    | part hp h =>
      obtain ⟨item, hmem, hitem⟩ := hitem
      rcases List.mem_cons.mp hmem with rfl | hmem
      · cases hp with
        | token => simp
        | sigilName => simp
        | node => cases hitem
      · exact List.append_ne_nil_of_right_ne_nil _ (ih h ⟨item, hmem, hitem⟩)

end Item.Spelled

/-! ## Rules and parts -/

namespace Rule

variable {σ : Convention} {n : Node} {items : List Item} {pieces : List Piece}

/-- Every rule has a terminal or a token. -/
theorem exists_leaf (h : Rule σ n items) : ∃ item ∈ items, item.isLeaf := by
  cases h with
  | shorthand => exact ⟨_, List.mem_cons_self, rfl⟩
  | operation => exact ⟨_, List.mem_cons_self, rfl⟩
  | fragment => exact ⟨_, List.mem_cons_self, rfl⟩
  | variableDefinition => exact ⟨_, List.mem_cons_self, rfl⟩
  | typeRef => exact ⟨_, List.mem_append_right _ List.mem_cons_self, rfl⟩
  | directive => exact ⟨_, List.mem_cons_self, rfl⟩
  | argument => exact ⟨_, List.mem_cons_self, rfl⟩
  | reference => exact ⟨_, List.mem_cons_self, rfl⟩
  | true => exact ⟨_, List.mem_cons_self, rfl⟩
  | false => exact ⟨_, List.mem_cons_self, rfl⟩
  | null => exact ⟨_, List.mem_cons_self, rfl⟩
  | scalar => exact ⟨_, List.mem_cons_self, rfl⟩
  | list => exact ⟨_, List.mem_cons_self, rfl⟩
  | field => exact ⟨_, List.mem_append_right _ List.mem_cons_self, rfl⟩
  | fragmentSpread => exact ⟨_, List.mem_cons_self, rfl⟩
  | inlineFragment => exact ⟨_, List.mem_cons_self, rfl⟩

/-- A node is written with at least one piece. -/
theorem pieces_ne_nil (h : Rule σ n items) (hitems : Item.Spelled σ items pieces) :
    pieces ≠ [] := hitems.ne_nil h.exists_leaf

end Rule

/-! ## The parts of a rule -/

section

variable {α : Type} {items written : List Item} {selections : List Selection}

@[simp] theorem Item.filterMap_terminal (t : Terminal) (items : List Item) :
    (Item.terminal t :: items).filterMap Item.part? = items.filterMap Item.part? := rfl

@[simp] theorem Item.filterMap_part (p : Part) (items : List Item) :
    (Item.part p :: items).filterMap Item.part? = p :: items.filterMap Item.part? := rfl

theorem filterMap_part? (f : α → Part) (l : List α) :
    (l.map fun a => Item.part (f a)).filterMap Item.part? = l.map f := by
  induction l with
  | nil => rfl
  | cons a l ih => rw [List.map_cons, Item.filterMap_part, ih, List.map_cons]

theorem Item.filterMap_braced (items : List Item) :
    (Item.braced items).filterMap Item.part? = items.filterMap Item.part? := by
  simp [Item.braced, Item.word]

theorem InParentheses.filterMap_eq (h : InParentheses items written) :
    written.filterMap Item.part? = items.filterMap Item.part? := by
  cases h with
  | absent => rfl
  | present items => simp [Item.parenthesised, Item.word]

theorem DefinitionBody.filterMap_eq {σ : Convention} (h : DefinitionBody σ selections items) :
    items.filterMap Item.part? = (selections.map Selection.item).filterMap Item.part? := by
  cases h with
  | absent => rfl
  | present => exact Item.filterMap_braced _

theorem filterMap_fieldBody (selections : List Selection) :
    (fieldBody selections).filterMap Item.part? =
      (selections.map Selection.item).filterMap Item.part? := by
  unfold fieldBody
  split
  · rename_i h
    rw [List.isEmpty_iff.mp h]
    rfl
  · exact Item.filterMap_braced _

end

/-- A rule has the parts of its node, in the same order. -/
theorem Rule.parts_eq {σ : Convention} {n : Node} {items : List Item} (h : Rule σ n items) :
    items.filterMap Item.part? = n.parts := by
  have htokens (l : List Token) : (l.map Token.item).filterMap Item.part? = l.map .token :=
    filterMap_part? .token l
  have hdirectives (l : List Directive) : (l.map Directive.item).filterMap Item.part? =
      l.map fun d => .node (.directive d) := filterMap_part? _ l
  have harguments (l : List Argument) : (l.map Argument.item).filterMap Item.part? =
      l.map fun a => .node (.argument a) := filterMap_part? _ l
  have hselections (l : List Selection) : (l.map Selection.item).filterMap Item.part? =
      l.map fun s => .node (.selection s) := filterMap_part? _ l
  have hvariables (l : List VariableDefinition) :
      (l.map VariableDefinition.item).filterMap Item.part? =
        l.map fun v => .node (.variableDefinition v) := filterMap_part? _ l
  have hvalues (l : List Value) : (l.map Value.item).filterMap Item.part? =
      l.map fun v => .node (.value v) := filterMap_part? _ l
  cases h with
  | shorthand selections span =>
    rw [Item.filterMap_braced, hselections]
    rfl
  | operation header selections span hwritten hbody =>
    simp [Token.item, hwritten.filterMap_eq, hbody.filterMap_eq, htokens, hdirectives, hselections,
      hvariables, Node.parts, Operation.keyword, Operation.name, Operation.variableDefinitions,
      Operation.directives]
  | fragment f hbody =>
    simp [Item.keyword, Item.word, Token.item, hbody.filterMap_eq, hdirectives, hselections,
      Node.parts]
  | variableDefinition v =>
    cases hdefault : v.default <;>
      simp [Item.word, TypeRef.item, Value.item, hdirectives, Node.parts, hdefault]
  | @typeRef t brackets closings hbrackets hclosings =>
    have hopenings : (Item.openings brackets).filterMap Item.part? = [] := by
      cases brackets <;> simp [Item.openings, Item.word, Item.part?]
    have hmarks : (closings.map fun c => Item.terminal (.mark c)).filterMap Item.part? = [] := by
      simp [Item.part?]
    rw [List.filterMap_append, hopenings, Token.item, Item.filterMap_part, hmarks]
    rfl
  | directive d harguments' =>
    rw [Item.filterMap_part, harguments'.filterMap_eq, harguments]
    rfl
  | argument a =>
    obtain ⟨name, value, span⟩ := a
    cases value <;> rfl
  | reference => rfl
  | true => rfl
  | false => rfl
  | null => rfl
  | scalar => rfl
  | list items span =>
    simp [Item.word, hvalues, Node.parts, Node.valueParts]
  | field aliasName name arguments directives selections span hwritten =>
    cases aliasName <;>
      simp [Item.word, Token.item, hwritten.filterMap_eq, harguments, hdirectives, hselections,
        filterMap_fieldBody, Node.parts, Node.selectionParts]
  | fragmentSpread name directives span =>
    simp [Token.item, hdirectives, Node.parts, Node.selectionParts]
  | inlineFragment typeCondition directives selections span =>
    cases typeCondition <;>
      simp [Item.keyword, Item.word, Token.item, Item.filterMap_braced, hdirectives, hselections,
        Node.parts, Node.selectionParts]

/-- A node is written with some items, in these pieces. -/
structure Node.Spelled (σ : Convention) (n : Node) (items : List Item) (pieces : List Piece) :
    Prop where
  wellFormed : n.WellFormed
  rule : Rule σ n items
  spelled : Item.Spelled σ items pieces
  covers : ∀ span ∈ n.span?, Covers span pieces

theorem Part.Spelled.node_iff {σ : Convention} {n : Node} {pieces : List Piece} :
    (Part.node n).Spelled σ pieces ↔ ∃ items, n.Spelled σ items pieces := by
  constructor
  · rintro (_ | _ | ⟨hn, hrule, hitems, hspan⟩)
    exact ⟨_, hn, hrule, hitems, hspan⟩
  · rintro ⟨items, hn, hrule, hitems, hspan⟩
    exact .node hn hrule hitems hspan

/-- A part is written with at least one piece. -/
theorem Part.Spelled.ne_nil {σ : Convention} {p : Part} {pieces : List Piece}
    (h : p.Spelled σ pieces) : pieces ≠ [] := by
  cases h with
  | token => exact List.cons_ne_nil _ _
  | sigilName => exact List.cons_ne_nil _ _
  | node _ hrule hitems _ => exact hrule.pieces_ne_nil hitems

/-! ## Other conventions -/

section

/-- Where there are at most `bound` brackets, what `σ` allows is allowed by `τ`. -/
structure Convention.Within (σ : Convention) (bound : Nat) (τ : Convention) : Prop where
  counts : ∀ brackets lists, brackets ≤ bound → lists < Reader.maxLists →
    σ.counts brackets lists → τ.counts brackets lists
  omitsBraces : σ.omitsBraces → τ.omitsBraces

variable {σ τ : Convention} {bound : Nat}

theorem DefinitionBody.mono {selections : List Selection} {items : List Item}
    (hwithin : σ.Within bound τ) (h : DefinitionBody σ selections items) :
    DefinitionBody τ selections items := by
  cases h with
  | absent h => exact .absent (hwithin.omitsBraces h)
  | present => exact .present selections

/-- Where few brackets are counted in the same way, types are written in the same way. -/
theorem Rule.mono {n : Node} {items : List Item} {pieces : List Piece}
    (hwithin : σ.Within bound τ) (h : Rule σ n items) (hn : n.WellFormed)
    (hitems : Item.Spelled σ items pieces) (hpieces : pieces.length ≤ bound) :
    Rule τ n items := by
  cases h with
  | @typeRef t brackets closings hbrackets hclosings =>
    refine .typeRef t (hwithin.counts brackets t.dimensions ?_ hn.2 hbrackets) hclosings
    obtain ⟨first, rest, rfl, hopenings, -⟩ := hitems.of_append
    have := hopenings.length_openings
    rw [List.length_append] at hpieces
    omega
  | shorthand selections span => exact .shorthand selections span
  | operation header selections span hwritten hbody =>
    exact .operation header selections span hwritten (hbody.mono hwithin)
  | fragment f hbody => exact .fragment f (hbody.mono hwithin)
  | variableDefinition v => exact .variableDefinition v
  | directive d harguments => exact .directive d harguments
  | argument a => exact .argument a
  | reference variableName => exact .reference variableName
  | true => exact .true
  | false => exact .false
  | null => exact .null
  | scalar token => exact .scalar token
  | list items span => exact .list items span
  | field aliasName name arguments directives selections span hwritten =>
    exact .field aliasName name arguments directives selections span hwritten
  | fragmentSpread name directives span => exact .fragmentSpread name directives span
  | inlineFragment typeCondition directives selections span =>
    exact .inlineFragment typeCondition directives selections span

mutual

theorem Part.Spelled.mono {p : Part} {pieces : List Piece} (hwithin : σ.Within bound τ)
    (h : p.Spelled σ pieces) (hpieces : pieces.length ≤ bound) : p.Spelled τ pieces :=
  match h with
  | .token t span hspan => .token t span hspan
  | .sigilName sigil t span hspan => .sigilName sigil t span hspan
  | .node hn hrule hitems hspan =>
    .node hn (hrule.mono hwithin hn hitems hpieces) (hitems.mono hwithin hpieces) hspan

theorem Item.Spelled.mono {items : List Item} {pieces : List Piece} (hwithin : σ.Within bound τ)
    (h : Item.Spelled σ items pieces) (hpieces : pieces.length ≤ bound) :
    Item.Spelled τ items pieces :=
  match h with
  | .nil => .nil
  | .terminal t span h => .terminal t span (h.mono hwithin (Nat.le_of_succ_le hpieces))
  | .part hp h =>
    have hle := List.length_append ▸ hpieces
    .part (hp.mono hwithin (Nat.le_trans (Nat.le_add_right _ _) hle))
      (h.mono hwithin (Nat.le_trans (Nat.le_add_left _ _) hle))

end

end

end GraphQLSyntax
