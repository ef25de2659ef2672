import GraphQLSyntax.Proofs.Grammar.Closed
import GraphQLSyntax.Proofs.Grammar.Moved

/-!
# Definitions in a row

A definition need not end with a brace. Where it does not, what follows tells that it ends.

* `Item.EndsBefore`: what is written ends in front of a lexeme of some kind.
* `Definition.Chain`: definitions in a row, each of which ends in front of the next.
* `Definition.Chain.of_spelled`: definitions that all have braces may stand in a row.
* `Definition.Chain.before`: definitions may stand in front of anything if the last has braces.
-/

namespace GraphQLSyntax

/-- A definition that is written with `items` ends in front of a lexeme of the kind `l`: it has
braces, or it does not go on with such a lexeme. With a name it goes on only if it is a keyword so
far. -/
def Item.EndsBefore (items : List Item) (l : Lexeme) : Prop :=
  items.getLast? = some (.word .curlyClose "\x7d") ∨
    l ∉ [.unknown, .parenOpen, .atSign, .curlyOpen] ∧ (items.length = 1 → l ≠ .name)

/-- The kind of the lexeme that some pieces start with, or else that follows them. -/
def Piece.aheadOf (pieces : List Piece) (l : Lexeme) : Lexeme :=
  (pieces.head?.map (·.terminal.ahead)).getD l

/-- Definitions are written with pieces in a row, in front of a lexeme of the kind `l`. Each of them
ends in front of what follows it. -/
inductive Definition.Chain (σ : Convention) :
    List Definition → List Piece → (l : Lexeme) → Prop where
  | nil (l : Lexeme) : Chain σ [] [] l
  | cons {d : Definition} {ds : List Definition} {items : List Item} {first pieces : List Piece}
    {l : Lexeme} (hd : d.node.Spelled σ items first)
    (hends : Item.EndsBefore items (Piece.aheadOf pieces l)) (h : Chain σ ds pieces l) :
    Chain σ (d :: ds) (first ++ pieces) l

variable {σ : Convention} {f : Position → Position} {k k' : Cursor} {l : Lexeme}
  {items : List Item} {pieces : List Piece} {ds : List Definition}

/-! ## What follows -/

namespace Item.EndsBefore

/-- Where there are no braces, what follows tells that a definition ends. -/
theorem of_avoid (h : Item.EndsBefore items l) (hitems : Item.Avoid [.curlyClose] items) :
    l ∉ [.unknown, .parenOpen, .atSign, .curlyOpen] ∧ (items.length = 1 → l ≠ .name) := by
  refine h.resolve_left fun hlast => ?_
  exact hitems _ (List.mem_of_getLast? hlast) .curlyClose (by simp) (by simp)

theorem map (h : Item.EndsBefore items l) : Item.EndsBefore (items.map (Item.map f)) l := by
  refine h.imp (fun hlast => ?_) fun hnext => ?_
  · rw [List.getLast?_map, hlast]
    rfl
  · rwa [List.length_map]

end Item.EndsBefore

@[simp] theorem Piece.aheadOf_map : Piece.aheadOf (pieces.map (Piece.map f)) l =
    Piece.aheadOf pieces l := by
  cases pieces <;> rfl

theorem Laid.ahead_eq (h : Laid k pieces k') : k.ahead = Piece.aheadOf pieces k'.ahead := by
  cases pieces with
  | nil =>
    cases h
    rfl
  | cons p ps => exact h.1.ahead

/-! ## Definitions -/

theorem Node.Spelled.map {n : Node} (h : n.Spelled σ items pieces) :
    (n.map f).Spelled σ (items.map (Item.map f)) (pieces.map (Piece.map f)) := by
  refine ⟨h.wellFormed.map, h.rule.map, h.spelled.map, fun moved hmoved => ?_⟩
  rw [Node.span?_map] at hmoved
  obtain ⟨span, hmem, rfl⟩ := Option.map_eq_some_iff.mp hmoved
  exact (h.covers span hmem).map

theorem Item.getLast?_braced (front items : List Item) :
    (front ++ Item.braced items).getLast? = some (.word .curlyClose "\x7d") := by
  rw [Item.braced, ← List.cons_append, ← List.append_assoc, List.getLast?_concat]

/-- Where braces are not left out, a definition ends with one. -/
theorem Rule.getLast?_of_braces {d : Definition} (hbraces : ¬ σ.omitsBraces)
    (h : Rule σ d.node items) : items.getLast? = some (.word .curlyClose "\x7d") := by
  obtain ⟨front, body, rfl, hbody, -⟩ := h.front
  generalize d.selections = selections at hbody
  cases hbody with
  | absent homits => exact absurd homits hbraces
  | present => exact Item.getLast?_braced front _

/-- A definition whose text ends with a brace has braces. -/
theorem Node.Spelled.getLast?_of_closed {d : Definition} (h : d.node.Spelled σ items pieces)
    (hclosed : Piece.Closed pieces) : items.getLast? = some (.word .curlyClose "\x7d") := by
  obtain ⟨front, body, rfl, hbody, hfront⟩ := h.rule.front
  generalize d.selections = selections at hbody
  cases hbody with
  | absent =>
    refine absurd hclosed (h.spelled.not_closed ?_)
    rw [List.append_nil]
    exact hfront h.wellFormed
  | present => exact Item.getLast?_braced front _

namespace Definition.Chain

theorem spelled (h : Chain σ ds pieces l) : Item.Spelled σ (ds.map Definition.item) pieces := by
  induction h with
  | nil => exact .nil
  | cons hd _ _ ih => exact .part (Part.Spelled.node_iff.mpr ⟨_, hd⟩) ih

/-- How definitions follow each other has nothing to do with where they stand. -/
theorem map (h : Chain σ ds pieces l) :
    Chain σ (ds.map (Definition.map f)) (pieces.map (Piece.map f)) l := by
  induction h with
  | nil => exact .nil _
  | @cons d ds items first pieces l hd hends h ih =>
    rw [List.map_append]
    have hnode : (d.map f).node = d.node.map f := by cases d <;> rfl
    exact .cons (hnode ▸ hd.map) (by rw [Piece.aheadOf_map]; exact hends.map) ih

/-- Definitions that have braces may stand in front of anything. -/
theorem of_spelled (hbraces : ¬ σ.omitsBraces)
    (h : Item.Spelled σ (ds.map Definition.item) pieces) (l : Lexeme) : Chain σ ds pieces l := by
  induction ds generalizing pieces with
  | nil =>
    cases h
    exact .nil l
  | cons d ds ih =>
    cases h with
    | part hd h =>
      obtain ⟨items, hd⟩ := Part.Spelled.node_iff.mp hd
      exact .cons hd (.inl (hd.rule.getLast?_of_braces hbraces)) (ih h)

/-- Definitions may stand in front of anything where the text of the last of them ends with a
brace. -/
theorem before (h : Chain σ ds pieces l) (hclosed : pieces = [] ∨ Piece.Closed pieces)
    (l' : Lexeme) : Chain σ ds pieces l' := by
  induction h with
  | nil => exact .nil l'
  | @cons d ds items first pieces l hd hends h ih =>
    have hne : first ≠ [] := hd.rule.pieces_ne_nil hd.spelled
    have hclosed := hclosed.resolve_left (List.append_ne_nil_of_left_ne_nil hne pieces)
    by_cases hrest : pieces = []
    · subst hrest
      rw [List.append_nil] at hclosed
      exact .cons hd (.inl (hd.getLast?_of_closed hclosed)) (ih (.inl rfl))
    · rw [Piece.Closed.append_iff hrest] at hclosed
      refine .cons hd ?_ (ih (.inr hclosed))
      obtain ⟨p, ps, rfl⟩ := List.exists_cons_of_ne_nil hrest
      exact hends

/-- One definition may stand alone. -/
theorem single {d : Definition} (h : (Part.node d.node).Spelled σ pieces) :
    Chain σ [d] pieces .eof := by
  obtain ⟨items, hd⟩ := Part.Spelled.node_iff.mp h
  have := Chain.cons hd (.inr ⟨by decide, fun _ => by decide⟩) (.nil .eof)
  rwa [List.append_nil] at this

end Definition.Chain

end GraphQLSyntax
