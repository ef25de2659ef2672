import GraphQLSyntax.Proofs.Grammar.Laid
import GraphQLSyntax.Proofs.Tree.Moved

/-!
# Parts in a text

A part can stand in more than one text. A function `g` takes the positions of the text at hand to
those of the part: it may forget them, shift them, or leave them as they are.

* `Part.LaidOut`, `Item.LaidOut`: a part, or some items, stand between two cursors.
* `Part.LaidOut.node`: a node stands where the items of one of its rules stand.
* `Item.firsts`: the kinds of lexeme that an item may start with.
* `Item.LaidOut.ahead`: what holds of these, and of what follows, holds of the next lexeme.
-/

namespace GraphQLSyntax

/-- A piece at another place. -/
def Piece.map (g : Position → Position) (p : Piece) : Piece := ⟨p.terminal, p.span.map g⟩

section

variable (σ : Convention) (g : Position → Position)

/-- A part stands between two cursors, at positions that `g` takes to its own. -/
def Part.LaidOut (p : Part) (k k' : Cursor) : Prop :=
  ∃ pieces, Laid k pieces k' ∧ p.Spelled σ (pieces.map (Piece.map g))

/-- Some items stand between two cursors, at positions that `g` takes to their own. -/
def Item.LaidOut (items : List Item) (k k' : Cursor) : Prop :=
  ∃ pieces, Laid k pieces k' ∧ Item.Spelled σ items (pieces.map (Piece.map g))

end

variable {σ : Convention} {g : Position → Position} {k k' k'' : Cursor}

@[simp] theorem Piece.map_id : Piece.map id = id := rfl

/-- Items stand where their pieces do. -/
theorem Item.Spelled.laidOut {items : List Item} {pieces : List Piece}
    (h : Item.Spelled σ items pieces) (hlaid : Laid k pieces k') :
    Item.LaidOut σ id items k k' :=
  ⟨pieces, hlaid, by rwa [Piece.map_id, List.map_id]⟩

theorem Part.LaidOut.reaches {p : Part} {text : String} (h : p.LaidOut σ g k k')
    (hk : k.Reaches text) : k'.Reaches text := by
  obtain ⟨pieces, hlaid, -⟩ := h
  exact hlaid.reaches hk

/-! ## Items -/

namespace Item.LaidOut

variable {items items' : List Item} {p : Part} {t : Terminal}

theorem reaches {text : String} (h : Item.LaidOut σ g items k k') (hk : k.Reaches text) :
    k'.Reaches text := by
  obtain ⟨pieces, hlaid, -⟩ := h
  exact hlaid.reaches hk

theorem nil (h : Item.LaidOut σ g [] k k') : k' = k := by
  obtain ⟨pieces, hlaid, hspelled⟩ := h
  cases pieces with
  | nil => exact hlaid
  | cons => cases hspelled

/-- Items in a row stand one behind the other. -/
theorem append (h : Item.LaidOut σ g (items ++ items') k k'') :
    ∃ k', Item.LaidOut σ g items k k' ∧ Item.LaidOut σ g items' k' k'' := by
  obtain ⟨pieces, hlaid, hspelled⟩ := h
  obtain ⟨first, second, heq, hfirst, hsecond⟩ := hspelled.of_append
  obtain ⟨ps, qs, rfl, rfl, rfl⟩ := List.map_eq_append_iff.mp heq
  obtain ⟨k', hps, hqs⟩ := Laid.append_iff.mp hlaid
  exact ⟨k', ⟨ps, hps, hfirst⟩, ⟨qs, hqs, hsecond⟩⟩

theorem terminal (h : Item.LaidOut σ g (.terminal t :: items) k k') :
    t.LaidAt k ∧ Item.LaidOut σ g items (k.behind t) k' := by
  obtain ⟨pieces, hlaid, hspelled⟩ := h
  cases pieces with
  | nil => cases hspelled
  | cons p ps =>
    obtain ⟨hp, -, hps⟩ := hlaid
    obtain ⟨t, span⟩ := p
    rw [List.map_cons, Piece.map] at hspelled
    cases hspelled with
    | terminal _ _ h => exact ⟨hp, ps, hps, h⟩

theorem part (h : Item.LaidOut σ g (.part p :: items) k k'') :
    ∃ k', p.LaidOut σ g k k' ∧ Item.LaidOut σ g items k' k'' := by
  rw [← List.singleton_append] at h
  obtain ⟨k', ⟨ps, hps, hspelled⟩, h⟩ := h.append
  exact ⟨k', ⟨ps, hps, hspelled.of_single⟩, h⟩

theorem single (h : Item.LaidOut σ g [.part p] k k') : p.LaidOut σ g k k' := by
  obtain ⟨pieces, hlaid, hspelled⟩ := h
  exact ⟨pieces, hlaid, hspelled.of_single⟩

end Item.LaidOut

/-! ## Parts -/

/-- A node covers the pieces that it is written with. -/
theorem Node.Spelled.span_eq {n : Node} {items : List Item} {pieces : List Piece}
    (h : n.Spelled σ items (pieces.map (Piece.map g))) (hlaid : Laid k pieces k') :
    ∀ span ∈ n.span?, Span.map g ⟨k.skipTrivia.position, k'.position⟩ = span := by
  intro span hmem
  have hne : pieces ≠ [] := by
    rintro rfl
    exact h.rule.pieces_ne_nil h.spelled rfl
  obtain ⟨hstart, hstop⟩ := hlaid.covers hne
  obtain ⟨hstart', hstop'⟩ := h.covers span hmem
  rw [List.head?_map, Option.map_map] at hstart'
  rw [List.getLast?_map, Option.map_map] at hstop'
  have hstart := congrArg (Option.map g) hstart
  have hstop := congrArg (Option.map g) hstop
  rw [Option.map_map] at hstart hstop
  obtain ⟨start, stop⟩ := span
  rw [Span.map, Span.mk.injEq]
  exact ⟨Option.some.inj (hstart.symm.trans hstart'), Option.some.inj (hstop.symm.trans hstop')⟩

namespace Part.LaidOut

variable {p : Part} {t : Token} {n : Node}

theorem token (h : (Part.token t).LaidOut σ g k k') : t.terminal.LaidAt k ∧
    k' = k.behind t.terminal ∧ (k.spanOf t.terminal).map g = t.span := by
  obtain ⟨pieces, hlaid, hspelled⟩ := h
  generalize hmap : pieces.map (Piece.map g) = mapped at hspelled
  cases hspelled with
  | token _ span hspan =>
    obtain ⟨⟨terminal, _⟩, rfl, hp⟩ := List.map_eq_singleton_iff.mp hmap
    rw [Piece.map, Piece.mk.injEq] at hp
    obtain ⟨rfl, rfl⟩ := hp
    obtain ⟨hat, rfl, rfl⟩ : t.terminal.LaidAt k ∧ _ = k.spanOf t.terminal ∧
        k' = k.behind t.terminal := hlaid
    exact ⟨hat, rfl, covers_single.mp hspan⟩

theorem sigilName {sigil : Char} (h : (Part.sigilName sigil t).LaidOut σ g k k') :
    (Terminal.sigilName sigil t.text).LaidAt k ∧ k' = k.behind (.sigilName sigil t.text) ∧
      (k.spanOf (.sigilName sigil t.text)).map g = t.span := by
  obtain ⟨pieces, hlaid, hspelled⟩ := h
  generalize hmap : pieces.map (Piece.map g) = mapped at hspelled
  cases hspelled with
  | sigilName _ _ span hspan =>
    obtain ⟨⟨terminal, _⟩, rfl, hp⟩ := List.map_eq_singleton_iff.mp hmap
    rw [Piece.map, Piece.mk.injEq] at hp
    obtain ⟨rfl, rfl⟩ := hp
    obtain ⟨hat, rfl, rfl⟩ : (Terminal.sigilName sigil t.text).LaidAt k ∧
        _ = k.spanOf (.sigilName sigil t.text) ∧ k' = k.behind (.sigilName sigil t.text) := hlaid
    exact ⟨hat, rfl, covers_single.mp hspan⟩

theorem item (h : p.LaidOut σ g k k') : Item.LaidOut σ g [.part p] k k' := by
  obtain ⟨pieces, hlaid, hspelled⟩ := h
  exact ⟨pieces, hlaid, .single hspelled⟩

/-- A node stands where the items of one of its rules stand. It covers them. -/
theorem node (h : (Part.node n).LaidOut σ g k k') : n.WellFormed ∧
    (∃ items, Rule σ n items ∧ Item.LaidOut σ g items k k') ∧
    ∀ span ∈ n.span?, Span.map g ⟨k.skipTrivia.position, k'.position⟩ = span := by
  obtain ⟨pieces, hlaid, hspelled⟩ := h
  obtain ⟨items, hn⟩ := Part.Spelled.node_iff.mp hspelled
  exact ⟨hn.wellFormed, ⟨items, hn.rule, pieces, hlaid, hn.spelled⟩, hn.span_eq hlaid⟩

end Part.LaidOut

/-! ## First lexemes -/

/-- The kinds of lexeme that a node may start with. -/
def Node.firsts : Node → List Lexeme
  | operation o => if o.header.isSome then [.name] else [.curlyOpen]
  | fragment _ | argument _ => [.name]
  | variableDefinition _ | reference _ => [.dollar]
  | typeRef _ => [.name, .squareOpen]
  | directive _ => [.atSign]
  | value _ => [.name, .squareOpen, .curlyOpen, .int, .float, .string, .blockString]
  | selection _ => [.name, .period]

/-- A node starts with a lexeme of a kind. -/
theorem Node.firsts_known (n : Node) : ∀ l ∈ n.firsts, l.isControl = false := by
  cases n with
  | operation o => cases h : o.header <;> simp [firsts, h, Lexeme.isControl]
  | _ => simp [firsts, Lexeme.isControl]

/-- The kinds of lexeme that an item may start with. -/
def Item.firsts : Item → List Lexeme
  | terminal t => [t.ahead]
  | part (.token t) => [t.terminal.ahead]
  | part (.sigilName sigil t) => [(Terminal.sigilName sigil t.text).ahead]
  | part (.node n) => n.firsts

@[simp] theorem Item.firsts_word (kind : Lexeme) (text : String) :
    (word kind text).firsts = [kind] := rfl

@[simp] theorem Item.firsts_keyword (text : String) : (keyword text).firsts = [.name] := rfl

@[simp] theorem Value.firsts_item (v : Value) : v.item.firsts =
    [.name, .squareOpen, .curlyOpen, .int, .float, .string, .blockString] := rfl

@[simp] theorem Argument.firsts_item (a : Argument) : a.item.firsts = [.name] := rfl

@[simp] theorem Directive.firsts_item (d : Directive) : d.item.firsts = [.atSign] := rfl

@[simp] theorem Selection.firsts_item (s : Selection) : s.item.firsts = [.name, .period] := rfl

@[simp] theorem VariableDefinition.firsts_item (v : VariableDefinition) :
    v.item.firsts = [.dollar] := rfl

@[simp] theorem TypeRef.firsts_item (t : TypeRef) : t.item.firsts = [.name, .squareOpen] := rfl

/-- No item starts with a lexeme of one of these kinds. -/
def Item.Avoid (ls : List Lexeme) (items : List Item) : Prop :=
  ∀ item ∈ items, ∀ l ∈ item.firsts, l ∉ ls

namespace Item

variable {ls : List Lexeme} {α : Type}

@[simp] theorem avoid_nil : Avoid ls [] := fun _ h => nomatch h

@[simp] theorem avoid_cons {item : Item} {items : List Item} :
    Avoid ls (item :: items) ↔ (∀ l ∈ item.firsts, l ∉ ls) ∧ Avoid ls items := List.forall_mem_cons

@[simp] theorem avoid_append {items items' : List Item} :
    Avoid ls (items ++ items') ↔ Avoid ls items ∧ Avoid ls items' := List.forall_mem_append

@[simp] theorem avoid_map {f : α → Item} {as : List α} :
    Avoid ls (as.map f) ↔ ∀ a ∈ as, ∀ l ∈ (f a).firsts, l ∉ ls := List.forall_mem_map

end Item

theorem InParentheses.avoid {ls : List Lexeme} {items written : List Item}
    (h : InParentheses items written) (hitems : Item.Avoid ls items)
    (hls : ∀ l ∈ [.parenOpen, .parenClose], l ∉ ls) : Item.Avoid ls written := by
  cases h with
  | absent => exact Item.avoid_nil
  | present => simp_all [Item.parenthesised]

theorem avoid_fieldBody {ls : List Lexeme} {selections : List Selection}
    (hls : ∀ l ∈ [.curlyOpen, .curlyClose, .name, .period], l ∉ ls) :
    Item.Avoid ls (fieldBody selections) := by
  unfold fieldBody
  split
  · exact Item.avoid_nil
  · simp_all [Item.braced]

theorem DefinitionBody.firsts_head {selections : List Selection} {body : List Item}
    (h : DefinitionBody σ selections body) : ∀ item ∈ body.head?, item.firsts = [.curlyOpen] := by
  cases h with
  | absent => simp
  | present => simp [Item.braced]

theorem Definition.mem_firsts_item {d : Definition} {l : Lexeme} (h : l ∈ d.item.firsts) :
    l ∈ [.name, .curlyOpen] := by
  cases d with
  | operation o =>
    have h : l ∈ if o.header.isSome then [.name] else [Lexeme.curlyOpen] := h
    split at h <;> simp_all
  | fragment f => exact List.mem_cons.mpr (.inl (List.mem_singleton.mp h))

namespace Token

theorem IsPlainName.firsts_item {t : Token} (h : t.IsPlainName) : t.item.firsts = [.name] := by
  show [t.terminal.ahead] = [.name]
  rw [h.terminal_eq]
  rfl

theorem IsPlainName.ahead_eq {t : Token} (h : t.IsPlainName)
    (hlaid : (Part.token t).LaidOut σ g k k') : k.ahead = .name := by
  rw [hlaid.token.1.ahead, h.terminal_eq]
  rfl

theorem IsLiteral.ahead_mem {t : Token} (h : t.IsLiteral) : t.terminal.ahead ∈
    [Lexeme.name, .squareOpen, .curlyOpen, .int, .float, .string, .blockString] := by
  have hkind := h.1
  unfold Token.terminal
  simp only [List.mem_cons, List.not_mem_nil, or_false] at hkind
  rcases hkind with hkind | hkind | hkind | hkind | hkind | hkind <;> rw [hkind] <;>
    simp [Terminal.ahead]

end Token

theorem OperationKind.mem_of_ofLexeme? {l : Lexeme} {kind : OperationKind}
    (h : ofLexeme? l = some kind) : l ∈ [.query, .mutation, .subscription] := by
  cases l <;> cases h <;> decide

namespace OperationHeader.WellFormed

/-- The keyword of a header is written as a name. -/
theorem terminal_eq {h : OperationHeader} (hh : h.WellFormed) :
    h.keyword.terminal = .lexeme .name h.keyword.text := by
  have hmem := OperationKind.mem_of_ofLexeme? hh.1
  simp only [List.mem_cons, List.not_mem_nil, or_false] at hmem
  unfold Token.terminal
  rcases hmem with heq | heq | heq <;> rw [heq]

theorem firsts_item {h : OperationHeader} (hh : h.WellFormed) :
    h.keyword.item.firsts = [.name] := by
  show [h.keyword.terminal.ahead] = [.name]
  rw [hh.terminal_eq]
  rfl

end OperationHeader.WellFormed

/-- A rule starts with a terminal or a token of one of the kinds that its node may start with. -/
theorem Rule.exists_first {n : Node} {items : List Item} (h : Rule σ n items) (hn : n.WellFormed) :
    ∃ item rest, items = item :: rest ∧ item.isLeaf ∧ ∀ l ∈ item.firsts, l ∈ n.firsts := by
  have hname {t : Token} (ht : t.IsPlainName) {ls : List Lexeme} (hls : .name ∈ ls) :
      ∀ l ∈ t.item.firsts, l ∈ ls := by
    intro l hl
    rw [ht.firsts_item, List.mem_singleton] at hl
    rwa [hl]
  cases h with
  | shorthand => exact ⟨_, _, rfl, rfl, fun l hl => hl⟩
  | operation header =>
    refine ⟨_, _, rfl, rfl, fun l hl => ?_⟩
    rwa [(hn.1 header rfl).firsts_item] at hl
  | fragment => exact ⟨_, _, rfl, rfl, fun l hl => hl⟩
  | variableDefinition => exact ⟨_, _, rfl, rfl, fun l hl => hl⟩
  | @typeRef t brackets closings _ _ =>
    cases brackets with
    | zero => exact ⟨_, _, rfl, rfl, hname hn.1 (by simp [Node.firsts])⟩
    | succ brackets => exact ⟨_, _, rfl, rfl, by simp [Node.firsts]⟩
  | directive => exact ⟨_, _, rfl, rfl, fun l hl => hl⟩
  | argument => exact ⟨_, _, rfl, rfl, hname hn (by simp [Node.firsts])⟩
  | reference => exact ⟨_, _, rfl, rfl, fun l hl => hl⟩
  | true => exact ⟨_, _, rfl, rfl, by simp [Node.firsts]⟩
  | false => exact ⟨_, _, rfl, rfl, by simp [Node.firsts]⟩
  | null => exact ⟨_, _, rfl, rfl, by simp [Node.firsts]⟩
  | scalar token =>
    refine ⟨_, _, rfl, rfl, fun l hl => ?_⟩
    rw [List.mem_singleton.mp hl]
    exact Token.IsLiteral.ahead_mem hn
  | list => exact ⟨_, _, rfl, rfl, by simp [Node.firsts]⟩
  | field aliasName =>
    cases aliasName with
    | none => exact ⟨_, _, rfl, rfl, hname hn.2 (by simp [Node.firsts])⟩
    | some t => exact ⟨_, _, rfl, rfl, hname (hn.1 t rfl) (by simp [Node.firsts])⟩
  | fragmentSpread => exact ⟨_, _, rfl, rfl, by simp [Item.firsts, Terminal.ahead, Node.firsts]⟩
  | inlineFragment => exact ⟨_, _, rfl, rfl, by simp [Item.firsts, Terminal.ahead, Node.firsts]⟩

namespace Item.LaidOut

variable {item : Item} {items : List Item}

theorem ahead_mem_of_isLeaf (h : Item.LaidOut σ g (item :: items) k k') (hitem : item.isLeaf) :
    k.ahead ∈ item.firsts := by
  cases item with
  | terminal t => exact List.mem_singleton.mpr h.terminal.1.ahead
  | part p =>
    obtain ⟨k₁, hp, -⟩ := h.part
    cases p with
    | token t => exact List.mem_singleton.mpr hp.token.1.ahead
    | sigilName sigil t => exact List.mem_singleton.mpr hp.sigilName.1.ahead
    | node n => cases hitem

/-- The next lexeme is one that the first item may start with. -/
theorem ahead_mem (h : Item.LaidOut σ g (item :: items) k k') : k.ahead ∈ item.firsts := by
  by_cases hitem : item.isLeaf
  · exact h.ahead_mem_of_isLeaf hitem
  · cases item with
    | terminal t => exact absurd rfl hitem
    | part p =>
      cases p with
      | token t => exact absurd rfl hitem
      | sigilName sigil t => exact absurd rfl hitem
      | node n =>
        obtain ⟨k₁, hn, -⟩ := h.part
        obtain ⟨hwf, ⟨_, hrule, hitems⟩, -⟩ := hn.node
        obtain ⟨first, rest, rfl, hfirst, hmem⟩ := hrule.exists_first hwf
        exact hmem _ (hitems.ahead_mem_of_isLeaf hfirst)

/-- What holds of all that some items may start with, and of what follows them, holds of the next
lexeme. -/
theorem ahead {P : Lexeme → Prop} (h : Item.LaidOut σ g items k k')
    (hitems : ∀ item ∈ items, ∀ l ∈ item.firsts, P l) (hnext : P k'.ahead) : P k.ahead := by
  cases items with
  | nil =>
    obtain rfl := h.nil
    exact hnext
  | cons item items => exact hitems item (by simp) _ h.ahead_mem

/-- What no item starts with, and does not follow them, is not the next lexeme. -/
theorem ahead_notMem {ls : List Lexeme} (h : Item.LaidOut σ g items k k')
    (hitems : Item.Avoid ls items) (hnext : k'.ahead ∉ ls) : k.ahead ∉ ls :=
  h.ahead (P := (· ∉ ls)) hitems hnext

theorem ahead_ne {l : Lexeme} (h : Item.LaidOut σ g items k k') (hitems : Item.Avoid [l] items)
    (hnext : k'.ahead ≠ l) : k.ahead ≠ l := by
  simpa using h.ahead_notMem hitems (by simpa using hnext)

end Item.LaidOut

/-- A lexeme of a kind stands where a node stands. -/
theorem Part.LaidOut.ahead_known {n : Node} (h : (Part.node n).LaidOut σ g k k') :
    k.ahead ≠ .eof ∧ k.ahead ≠ .unknown :=
  Lexeme.isControl_eq_false_iff.mp (n.firsts_known _ h.item.ahead_mem)

end GraphQLSyntax
