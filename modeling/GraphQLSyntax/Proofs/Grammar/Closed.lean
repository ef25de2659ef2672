import GraphQLSyntax.Proofs.Grammar.LaidOut
import GraphQLSyntax.Proofs.Lexical.Literal

/-!
# Definitions that end with a brace

A definition ends with a brace where its selections are written, and nowhere else: what may stand
in front of them ends with a name or with a parenthesis.

* `Piece.Closed`: the last of some pieces ends with a closing brace.
* `Item.Bare`: what some items are written with does not end like that.
* `Rule.front`: a definition is something bare, and its selections behind it.
-/

namespace GraphQLSyntax

variable {σ : Convention} {items items' written : List Item} {pieces : List Piece} {item : Item}

/-! ## Terminals -/

/-- The last of some pieces stands in front of some text, and ends with a closing brace. -/
def Piece.Closed (pieces : List Piece) : Prop :=
  ∃ p ∈ pieces.getLast?, p.chars.getLast? = some '}' ∧ ∃ rest, p.terminal.Stands rest

theorem Piece.closed_single {p : Piece} : Closed [p] ↔
    p.chars.getLast? = some '}' ∧ ∃ rest, p.terminal.Stands rest := by
  simp [Closed]

theorem Piece.Closed.append_iff {first : List Piece} (hne : pieces ≠ []) :
    Closed (first ++ pieces) ↔ Closed pieces := by
  rw [Closed, Closed, List.getLast?_append_of_ne_nil first hne]

theorem Lexical.IsName.getLast?_ne {cs : List Char} (h : IsName cs) : cs.getLast? ≠ some '}' := by
  obtain ⟨c, tail, rfl, hc, htail⟩ := h
  intro hlast
  rcases List.mem_cons.mp (List.mem_of_getLast? hlast) with rfl | hmem
  · exact absurd hc (by decide)
  · exact absurd (htail _ hmem) (by decide)

/-! ## Items -/

namespace Item

/-- The last of some items is not written with a closing brace at its end. -/
def Bare (σ : Convention) (items : List Item) : Prop :=
  ∀ item ∈ items.getLast?, ∀ pieces, Item.Spelled σ [item] pieces → ¬ Piece.Closed pieces

@[simp] theorem bare_nil : Bare σ [] := fun _ h => nomatch h

theorem Bare.concat (h : Bare σ [item]) (items : List Item) : Bare σ (items ++ [item]) := by
  intro item' hitem'
  rw [List.getLast?_concat] at hitem'
  exact h item' hitem'

theorem Bare.append (h : Bare σ items) (h' : Bare σ items') : Bare σ (items ++ items') := by
  intro item hitem
  rw [List.getLast?_append, Option.mem_def, Option.or_eq_some_iff] at hitem
  exact hitem.elim (h' item) fun hitem => h item hitem.2

theorem Bare.cons (h : Bare σ [item]) (h' : Bare σ items) : Bare σ (item :: items) := h.append h'

theorem bare_map {α : Type} {f : α → Item} (hf : ∀ a, Bare σ [f a]) (as : List α) :
    Bare σ (as.map f) := by
  intro item hitem
  rw [List.getLast?_map] at hitem
  obtain ⟨a, -, rfl⟩ := Option.map_eq_some_iff.mp hitem
  exact hf a _ rfl

/-- What bare items are written with does not end with a closing brace. -/
theorem Spelled.not_closed (h : Item.Spelled σ items pieces) (hitems : Bare σ items) :
    ¬ Piece.Closed pieces := by
  obtain rfl | ⟨front, item, rfl⟩ := items.eq_nil_or_concat'
  · cases h
    rintro ⟨p, ⟨⟩, -⟩
  · obtain ⟨first, second, rfl, -, hsecond⟩ := h.of_append
    have hne : second ≠ [] := by
      cases hsecond with
      | terminal => exact List.cons_ne_nil _ _
      | part hp => exact List.append_ne_nil_of_left_ne_nil hp.ne_nil _
    rw [Piece.Closed.append_iff hne]
    exact hitems item List.getLast?_concat _ hsecond

/-- Names are bare. -/
theorem bare_name {t : Token} {text : String} (h : t.terminal = .lexeme .name text) :
    Bare σ [t.item] := by
  rintro _ ⟨⟩ pieces hspelled hclosed
  cases hspelled.of_single
  obtain ⟨hlast, rest, hstands⟩ := Piece.closed_single.mp hclosed
  rw [Piece.chars, h] at hlast
  rw [h] at hstands
  exact (Lexical.isName_of_classify hstands.1).getLast?_ne hlast

/-- So are the names behind a sigil. -/
theorem bare_sigilName (sigil : Char) (t : Token) : Bare σ [.part (.sigilName sigil t)] := by
  rintro _ ⟨⟩ pieces hspelled hclosed
  cases hspelled.of_single
  obtain ⟨hlast, rest, -, hclassify⟩ := Piece.closed_single.mp hclosed
  have hname := Lexical.isName_of_classify hclassify
  obtain ⟨c, tail, hchars, -⟩ := id hname
  refine hname.getLast?_ne (Eq.trans ?_ hlast)
  rw [Piece.chars, Terminal.chars, hchars, List.getLast?_cons_cons]

theorem bare_parenClose : Bare σ [.word .parenClose ")"] := by
  rintro _ ⟨⟩ pieces hspelled hclosed
  cases hspelled with
  | terminal t span h =>
    cases h
    have hlast : ")".toList.getLast? = some '}' := (Piece.closed_single.mp hclosed).1
    exact absurd hlast (by decide)

end Item

theorem InParentheses.bare (h : InParentheses items written) : Item.Bare σ written := by
  cases h with
  | absent => exact Item.bare_nil
  | present =>
    rw [Item.parenthesised, ← List.cons_append]
    exact Item.bare_parenClose.concat _

theorem Directive.bare (d : Directive) : Item.Bare σ [d.item] := by
  rintro _ ⟨⟩ pieces hspelled
  obtain ⟨items, hd⟩ := Part.Spelled.node_iff.mp hspelled.of_single
  refine hd.spelled.not_closed ?_
  cases hd.rule with
  | directive _ harguments => exact (Item.bare_sigilName '@' d.name).cons harguments.bare

/-! ## Definitions -/

/-- A definition is something bare, and its selections behind it. -/
theorem Rule.front {d : Definition} (h : Rule σ d.node items) : ∃ front body,
    items = front ++ body ∧ DefinitionBody σ d.selections body ∧
      (d.node.WellFormed → Item.Bare σ front) := by
  cases d with
  | operation o =>
    cases h with
    | shorthand selections span => exact ⟨[], _, rfl, .present selections, fun _ => Item.bare_nil⟩
    | @operation header selections span written body hwritten hbody =>
      refine ⟨header.keyword.item :: (header.name.toList.map Token.item ++ (written ++
        header.directives.map Directive.item)), body, ?_, hbody, fun hd => ?_⟩
      · simp only [List.append_assoc, List.cons_append]
      · have hheader : header.WellFormed := hd.1 header rfl
        refine (Item.bare_name hheader.terminal_eq).cons (.append ?_ (hwritten.bare.append
          (Item.bare_map Directive.bare _)))
        cases hname : header.name with
        | none => exact Item.bare_nil
        | some t => exact Item.bare_name (hheader.2.2.2 t hname).terminal_eq
  | fragment x =>
    cases h with
    | fragment _ hbody =>
      refine ⟨.keyword "fragment" :: x.name.item :: .keyword "on" :: x.typeCondition.item ::
        x.directives.map Directive.item, _, rfl, hbody, fun hd => ?_⟩
      have htype : x.typeCondition.IsPlainName := hd.2.2.1
      have hfront := (Item.bare_name htype.terminal_eq).append
        (Item.bare_map (Directive.bare (σ := σ)) x.directives)
      intro item hitem
      rw [List.getLast?_cons_cons, List.getLast?_cons_cons, List.getLast?_cons_cons] at hitem
      exact hfront item hitem

end GraphQLSyntax
