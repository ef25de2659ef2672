import GraphQLSyntax.Proofs.Grammar.Reads
import GraphQLSyntax.Proofs.Grammar.Run

/-!
# What a text leaves open

Where the reading of a text breaks off, it stands inside a node that is not written to its end.
What is to come is not known, and neither are the nodes that the text would have had, so a text
breaks off inside some node that the grammar may have there.

* `Node.Enters`, `Item.Enter`: what is written leads into a node.
* `Node.LeftOpen`, `Node.LeftEmpty`: what is written of a node leaves something open, or has nothing
  between its braces.
* `Item.BreaksOff`: from a cursor on, some items break off as an error says.
* `Item.BreaksOff.inside_node`: they do so inside a node.
-/

namespace GraphQLSyntax

/-- A bracket that must be closed again. -/
def Terminal.IsOpening (t : Terminal) : Prop :=
  t = .lexeme .parenOpen "(" ∨ t = .lexeme .squareOpen "[" ∨ t = .lexeme .curlyOpen "\x7b"

section

variable (σ : Convention)

/-! ## Nodes that break off -/

/-- Written up to `before`, the node `m` has got into the node `n`, which is `m` or stands in it. -/
inductive Node.Enters : (m : Node) → (before : List Piece) → (n : Node) → Prop where
  | here (n : Node) : Enters n [] n
  | inside {l m n : Node} {front behind : List Item} {before within : List Piece}
    (hform : l.Form σ (front ++ .part (.node m) :: behind)) (hfront : Item.Spelled σ front before)
    (h : Enters m within n) : Enters l (before ++ within) n

/-- Written up to `before`, some items have got into the node `n`, which is one of them or stands
in one. -/
inductive Item.Enter : (items : List Item) → (before : List Piece) → (n : Node) → Prop where
  | node {front behind : List Item} {before within : List Piece} {m n : Node}
    (hfront : Item.Spelled σ front before) (h : m.Enters σ within n) :
    Enter (front ++ .part (.node m) :: behind) (before ++ within) n

/-- A bracket is open behind `within`, with whole parts behind it and nothing else. -/
inductive Item.Opened : (items : List Item) → (within : List Piece) → (opener : Piece) → Prop where
  | bracket {front parts behind : List Item} {before within : List Piece} {opener : Piece}
    (hfront : Item.Spelled σ front before)
    (hopener : opener.terminal.IsOpening)
    (hparts : ∀ item ∈ parts, item.isLeaf = false) (hwithin : Item.Spelled σ parts within) :
    Opened (front ++ .terminal opener.terminal :: (parts ++ behind)) (before ++ opener :: within)
      opener

/-- Written up to `within`, a node leaves open what starts at `opener`, and nothing behind it. Only
`rest` follows. -/
inductive Node.LeftOpen : (n : Node) → (within : List Piece) → (opener : Piece) →
    (rest : List Char) → Prop where
  /-- The text ends between two brackets. -/
  | brackets {n : Node} {items : List Item} {within : List Piece} {opener : Piece}
    {rest : List Char} (hform : n.Form σ items) (h : Item.Opened σ items within opener)
    (hrest : Gap rest []) : LeftOpen n within opener rest
  /-- Some of the brackets behind the name of a type are missing. These close its lists from the
  inside out, so the first bracket of the type stays open. All the brackets and marks that stand
  there are taken. -/
  | type {t : TypeRef} {brackets : Nat} {marks missing : List Char} {opener : Piece}
    {within : List Piece} {rest : List Char}
    (hform : (Node.typeRef t).Form σ (Item.openings (brackets + 1) ++
      t.name.item :: (marks ++ missing).map fun c => .terminal (.mark c)))
    (hmissing : ']' ∈ missing)
    (hwithin : Item.Spelled σ (Item.openings (brackets + 1) ++
      t.name.item :: marks.map fun c => .terminal (.mark c)) (opener :: within))
    (hrest : ∀ c ∈ (rest.dropWhile Lexical.isIgnorable).head?, c ≠ ']' ∧ c ≠ '!') :
    LeftOpen (.typeRef t) (opener :: within) opener rest
  /-- The text ends in an object literal. This is a single token, whatever stands in it. -/
  | object {token : Token} {opener : Piece} {rest : List Char} (htoken : token.lexeme = .object)
    (hopener : opener.terminal = .lexeme .curlyOpen "\x7b")
    (hrest : Lexical.braced 0 rest = (.unknown, rest)) :
    LeftOpen (.value (.scalar token)) [opener] opener rest

/-- A pair of braces with nothing in it ends `within`. -/
inductive Item.Emptied : (items : List Item) → (within : List Piece) → (opener closer : Piece) →
    Prop where
  | braces {front behind : List Item} {before : List Piece} {opener closer : Piece}
    (hfront : Item.Spelled σ front before) (hopener : opener.terminal = .lexeme .curlyOpen "\x7b")
    (hcloser : closer.terminal = .lexeme .curlyClose "\x7d") :
    Emptied (front ++ .word .curlyOpen "\x7b" :: behind) (before ++ [opener, closer]) opener closer

/-- Written up to `within`, a node has nothing between its braces. -/
def Node.LeftEmpty (n : Node) (within : List Piece) (opener closer : Piece) : Prop :=
  ∃ items, n.Form σ items ∧ Item.Emptied σ items within opener closer

end

/-- Whether a node is a definition. -/
def Node.isDefinition : Node → Bool
  | operation _ | fragment _ => true
  | _ => false

namespace Node

variable {σ : Convention} {n : Node} {within : List Piece} {opener closer : Piece}

/-- What is left open starts with a bracket. -/
theorem LeftOpen.isOpening {rest : List Char} (h : n.LeftOpen σ within opener rest) :
    opener ∈ within ∧ opener.terminal.IsOpening := by
  cases h with
  | brackets hform h hrest =>
    obtain ⟨hfront, hopener, -, -⟩ := h
    exact ⟨List.mem_append_right _ List.mem_cons_self, hopener⟩
  | type hform hmissing hwithin hrest =>
    refine ⟨List.mem_cons_self, .inr (.inl ?_)⟩
    cases hwithin
    rfl
  | object htoken hopener hrest => exact ⟨List.mem_cons_self, .inr (.inr hopener)⟩

/-- Only definitions and selections have braces, and the spread of a named fragment has none. -/
theorem LeftEmpty.selection (h : n.LeftEmpty σ within opener closer)
    (hn : n.isDefinition = false) : ∃ s, n = .selection s ∧
      ∀ name directives span, s ≠ .fragmentSpread name directives span := by
  obtain ⟨items, ⟨-, hrule⟩, hfront, -, -⟩ := h
  generalize hitems : _ ++ Item.word .curlyOpen "\x7b" :: _ = items at hrule
  have hbrace : Item.word .curlyOpen "\x7b" ∈ items :=
    hitems ▸ List.mem_append_right _ List.mem_cons_self
  clear hitems
  cases hrule with
  | shorthand => cases hn
  | operation => cases hn
  | fragment => cases hn
  | field => exact ⟨_, rfl, by rintro _ _ _ ⟨⟩⟩
  | inlineFragment => exact ⟨_, rfl, by rintro _ _ _ ⟨⟩⟩
  | @typeRef t brackets =>
    cases brackets <;> simp [Item.openings, Item.word, Token.item] at hbrace
  | directive d harguments =>
    generalize hwritten : d.arguments.map Argument.item = written at harguments
    cases harguments with
    | absent => simp [Item.word] at hbrace
    | present =>
      subst hwritten
      simp [Item.parenthesised, Item.word, Argument.item] at hbrace
  | argument a =>
    cases hvalue : a.value <;>
      simp [Item.word, Token.item, Value.item, ArgumentValue.item, hvalue] at hbrace
  | _ =>
    simp [Item.word, Item.keyword, Token.item, Value.item, TypeRef.item, Directive.item] at hbrace

end Node

/-! ## Errors about delimiters -/

namespace SyntaxError

/-- An error says that `opener` is never closed. -/
structure Unclosed (e : SyntaxError) (opener : Piece) : Prop where
  cause_eq : e.cause = .unclosedDelimiter (String.ofList opener.chars)
  notes_eq : ∃ message, e.notes = [.pointing message opener.span]
  start_le : opener.span.start.byteOffset ≤ e.span.start.byteOffset

/-- An error says that nothing stands between `opener` and `closer`. -/
structure FoundEmpty (e : SyntaxError) (opener closer : Piece) : Prop where
  cause_eq : ∃ construct, e.cause = .emptyConstruct construct
  notes_eq : ∃ message others, e.notes = .pointing message opener.span :: others
  span_eq : e.span = closer.span

/-- An error is about delimiters. -/
def OfDelimiters (e : SyntaxError) : Prop :=
  (∃ delimiter, e.cause = .unclosedDelimiter delimiter) ∨
    ∃ construct, e.cause = .emptyConstruct construct

end SyntaxError

namespace Item

/-- From `k` on, some items break off as an error says. `sets` says whether nothing may stand
between braces among them. That is found inside a node, and in no definition. -/
inductive BreaksOff (e : SyntaxError) : (sets : Bool) → (k : Cursor) → (items : List Item) →
    Prop where
  | opened {sets : Bool} {k k' : Cursor} {items : List Item} {within : List Piece}
    {opener : Piece} (h : Item.Opened .reading items within opener) (hlaid : Laid k within k')
    (hend : Gap k'.rest []) (he : e.Unclosed opener) : BreaksOff e sets k items
  | emptied {k k' : Cursor} {items : List Item} {within : List Piece} {opener closer : Piece}
    (h : Item.Emptied .reading items within opener closer) (hlaid : Laid k within k')
    (he : e.FoundEmpty opener closer) : BreaksOff e true k items
  | node {sets : Bool} {k k' k'' : Cursor} {front behind : List Item}
    {before within : List Piece} {n : Node} {opener : Piece}
    (hfront : Item.Spelled .reading front before) (hlaid : Laid k before k')
    (h : n.LeftOpen .reading within opener k''.rest) (hwithin : Laid k' within k'')
    (he : e.Unclosed opener) : BreaksOff e sets k (front ++ .part (.node n) :: behind)
  | inside {sets : Bool} {k k' : Cursor} {front behind items : List Item} {before : List Piece}
    {n : Node} (hfront : Item.Spelled .reading front before) (hlaid : Laid k before k')
    (hform : n.Form .reading items) (h : BreaksOff e (!n.isDefinition) k' items) :
    BreaksOff e sets k (front ++ .part (.node n) :: behind)

namespace BreaksOff

variable {e : SyntaxError} {sets : Bool} {k k' : Cursor} {items front : List Item}
  {before : List Piece}

theorem mono {sets' : Bool} (h : BreaksOff e sets k items) (hsets : sets = true → sets' = true) :
    BreaksOff e sets' k items := by
  cases h with
  | opened h hlaid hend he => exact .opened h hlaid hend he
  | emptied h hlaid he => exact hsets rfl ▸ .emptied h hlaid he
  | node hfront hlaid h hwithin he => exact .node hfront hlaid h hwithin he
  | inside hfront hlaid hform h => exact .inside hfront hlaid hform h

/-- What is to come does not matter. -/
theorem append (h : BreaksOff e sets k items) (more : List Item) :
    BreaksOff e sets k (items ++ more) := by
  cases h with
  | opened h hlaid hend he =>
    obtain ⟨hfront, hopener, hparts, hwithin⟩ := h
    rw [List.append_assoc, List.cons_append, List.append_assoc]
    exact .opened (.bracket hfront hopener hparts hwithin) hlaid hend he
  | emptied h hlaid he =>
    obtain ⟨hfront, hopener, hcloser⟩ := h
    rw [List.append_assoc]
    exact .emptied (.braces hfront hopener hcloser) hlaid he
  | node hfront hlaid h hwithin he =>
    rw [List.append_assoc]
    exact .node hfront hlaid h hwithin he
  | inside hfront hlaid hform h =>
    rw [List.append_assoc]
    exact .inside hfront hlaid hform h

/-- What stands before is read. -/
theorem prepend (h : BreaksOff e sets k' items) (hfront : Item.Spelled .reading front before)
    (hlaid : Laid k before k') : BreaksOff e sets k (front ++ items) := by
  cases h with
  | opened h hlaid' hend he =>
    obtain ⟨hfront', hopener, hparts, hwithin⟩ := h
    have hall := hlaid.append hlaid'
    rw [← List.append_assoc] at hall ⊢
    exact .opened (.bracket (hfront.append hfront') hopener hparts hwithin) hall hend he
  | emptied h hlaid' he =>
    obtain ⟨hfront', hopener, hcloser⟩ := h
    have hall := hlaid.append hlaid'
    rw [← List.append_assoc] at hall ⊢
    exact .emptied (.braces (hfront.append hfront') hopener hcloser) hall he
  | node hfront' hlaid' h hwithin he =>
    rw [← List.append_assoc]
    exact .node (hfront.append hfront') (hlaid.append hlaid') h hwithin he
  | inside hfront' hlaid' hform h =>
    rw [← List.append_assoc]
    exact .inside (hfront.append hfront') (hlaid.append hlaid') hform h

/-- A node that is left open breaks off. -/
theorem of_leftOpen {n : Node} {within : List Piece} {opener : Piece}
    (h : n.LeftOpen .reading within opener k'.rest) (hlaid : Laid k within k')
    (he : e.Unclosed opener) : BreaksOff e sets k [.part (.node n)] := by
  have hnode : BreaksOff e sets k ([] ++ [.part (.node n)]) := .node .nil rfl h hlaid he
  exact hnode

/-- A node breaks off where the items of its rule do. -/
theorem of_form {n : Node} (hform : n.Form .reading items)
    (h : BreaksOff e (!n.isDefinition) k items) : BreaksOff e sets k [.part (.node n)] := by
  have hinside : BreaksOff e sets k ([] ++ [.part (.node n)]) := .inside .nil rfl hform h
  exact hinside

/-- What a node leaves off with: something that is never closed, or nothing between its braces. -/
def Leaves (e : SyntaxError) (n : Node) (within : List Piece) (rest : List Char) : Prop :=
  (∃ opener, n.LeftOpen .reading within opener rest ∧ e.Unclosed opener) ∨
    n.isDefinition = false ∧ ∃ opener closer, n.LeftEmpty .reading within opener closer ∧
      e.FoundEmpty opener closer

/-- A node breaks off inside a node. -/
theorem within_node {n : Node} (h : BreaksOff e sets k items) (hform : n.Form .reading items)
    (hsets : sets = true → n.isDefinition = false) : ∃ before m within k',
      n.Enters .reading before m ∧ Laid k (before ++ within) k' ∧ Leaves e m within k'.rest := by
  -- What is left off may be further in: the induction goes from a node to the one inside it.
  induction h generalizing n with
  | opened h hlaid hend he =>
    exact ⟨[], n, _, _, .here n, hlaid, .inl ⟨_, .brackets hform h hend, he⟩⟩
  | emptied h hlaid he =>
    exact ⟨[], n, _, _, .here n, hlaid, .inr ⟨hsets rfl, _, _, ⟨_, hform, h⟩, he⟩⟩
  | node hfront hlaid h hwithin he =>
    refine ⟨_, _, _, _, .inside hform hfront (.here _), ?_, .inl ⟨_, h, he⟩⟩
    rw [List.append_nil]
    exact hlaid.append hwithin
  | inside hfront hlaid hinner _ ih =>
    obtain ⟨before, m, within, k', henters, hwithin, hleaves⟩ := ih hinner (by simp)
    refine ⟨_, m, within, k', .inside hform hfront henters, ?_, hleaves⟩
    rw [List.append_assoc]
    exact hlaid.append hwithin

/-- Items that are nodes break off inside a node. -/
theorem inside_node (h : BreaksOff e false k items) (hitems : ∀ item ∈ items, item.isLeaf = false) :
    ∃ before n within k', Item.Enter .reading items before n ∧ Laid k (before ++ within) k' ∧
      Leaves e n within k'.rest := by
  cases h with
  | opened h =>
    obtain ⟨⟩ := h
    exact absurd (hitems _ (List.mem_append_right _ List.mem_cons_self)) (by rintro ⟨⟩)
  | node hfront hlaid h hwithin he =>
    refine ⟨_, _, _, _, .node hfront (.here _), ?_, .inl ⟨_, h, he⟩⟩
    rw [List.append_nil]
    exact hlaid.append hwithin
  | inside hfront hlaid hform h =>
    obtain ⟨before, m, within, k', henters, hwithin, hleaves⟩ := h.within_node hform (by simp)
    refine ⟨_, m, within, k', .node hfront henters, ?_, hleaves⟩
    rw [List.append_assoc]
    exact hlaid.append hwithin

end BreaksOff

end Item

end GraphQLSyntax
