import GraphQLSyntax.Proofs.Grammar.LaidOut

/-!
# Moved trees are written alike

How a tree is written has nothing to do with where it stands. At other places it is written with the
same terminals, which are moved along.

* `Part.map`, `Item.map`: parts and items at other places.
* `Rule.map`: a moved node has the rule of the node, with the items moved.
* `Part.Spelled.map`: a moved part is written with the moved pieces of the part.
-/

namespace GraphQLSyntax

section

variable (f : Position → Position)

def Part.map : Part → Part
  | node n => node (n.map f)
  | token t => token (t.map f)
  | sigilName sigil t => sigilName sigil (t.map f)

def Item.map : Item → Item
  | terminal t => terminal t
  | part p => part (p.map f)

end

variable {f : Position → Position} {σ : Convention}

/-! ## Items -/

namespace Item

variable {items written : List Item}

/-- The items of moved trees are the moved items of the trees. -/
theorem map_map {α : Type} {item : α → Item} {m : α → α} (h : ∀ a, (item a).map f = item (m a))
    (as : List α) : (as.map item).map (map f) = (as.map m).map item := by
  rw [List.map_map, List.map_map]
  exact List.map_congr_left fun a _ => h a

theorem map_map_token (name : Option Token) : (name.toList.map Token.item).map (map f) =
    (name.map (Token.map f)).toList.map Token.item := by
  cases name <;> rfl

theorem map_map_directives (ds : List Directive) : (ds.map Directive.item).map (map f) =
    (ds.map (Directive.map f)).map Directive.item :=
  map_map (m := Directive.map f) (fun _ => rfl) ds

theorem map_map_selections (ss : List Selection) : (ss.map Selection.item).map (map f) =
    (ss.map (Selection.map f)).map Selection.item :=
  map_map (m := Selection.map f) (fun _ => rfl) ss

theorem map_braced (items : List Item) :
    (braced items).map (map f) = braced (items.map (map f)) := by
  rw [braced, braced, List.map_cons, List.map_append]
  rfl

theorem map_openings (brackets : Nat) : (openings brackets).map (map f) = openings brackets := by
  cases brackets with
  | zero => rfl
  | succ brackets =>
    rw [openings, List.map_cons, List.map_replicate]
    rfl

end Item

theorem InParentheses.map {items written : List Item} (h : InParentheses items written) :
    InParentheses (items.map (Item.map f)) (written.map (Item.map f)) := by
  cases h with
  | absent => exact .absent
  | present =>
    rw [Item.parenthesised, List.map_cons, List.map_append]
    exact .present _

theorem DefinitionBody.map {selections : List Selection} {body : List Item}
    (h : DefinitionBody σ selections body) :
    DefinitionBody σ (selections.map (Selection.map f)) (body.map (Item.map f)) := by
  cases h with
  | absent h => exact .absent h
  | present =>
    rw [Item.map_braced, Item.map_map_selections]
    exact .present _

theorem map_fieldBody (selections : List Selection) : (fieldBody selections).map (Item.map f) =
    fieldBody (selections.map (Selection.map f)) := by
  cases selections with
  | nil => rfl
  | cons s rest =>
    exact (Item.map_braced _).trans (congrArg Item.braced (Item.map_map_selections (s :: rest)))

/-! ## Rules -/

/-- A moved node has the rule of the node, with the items moved. -/
theorem Rule.map {n : Node} {items : List Item} (h : Rule σ n items) :
    Rule σ (n.map f) (items.map (Item.map f)) := by
  cases h with
  | shorthand selections span =>
    rw [Item.map_braced, Item.map_map_selections]
    exact .shorthand _ _
  | operation header selections span hwritten hbody =>
    have hwritten := hwritten.map (f := f)
    rw [Item.map_map (m := VariableDefinition.map f) fun _ => rfl] at hwritten
    simp only [List.map_cons, List.map_append, Item.map_map_token, Item.map_map_directives]
    exact .operation (header.map f) _ _ hwritten hbody.map
  | fragment x hbody =>
    simp only [List.map_cons, List.map_append, Item.map_map_directives]
    exact .fragment (x.map f) hbody.map
  | variableDefinition v =>
    obtain ⟨name, type, default, directives, span⟩ := v
    have hrule := Rule.variableDefinition (σ := σ)
      (VariableDefinition.map f ⟨name, type, default, directives, span⟩)
    simp only [List.map_cons, List.map_append, Item.map_map_directives]
    cases default <;> exact hrule
  | @typeRef t brackets closings hbrackets hclosings =>
    have hmarks : (closings.map fun c => Item.terminal (.mark c)).map (Item.map f) =
        closings.map fun c => .terminal (.mark c) := List.map_map
    rw [List.map_append, List.map_cons, Item.map_openings, hmarks]
    exact .typeRef (t.map f) hbrackets hclosings
  | directive d harguments =>
    have harguments := harguments.map (f := f)
    rw [Item.map_map (m := Argument.map f) fun _ => rfl] at harguments
    exact .directive (d.map f) harguments
  | argument a =>
    obtain ⟨name, value, span⟩ := a
    cases value <;> exact .argument _
  | reference variableName => exact .reference _
  | true => exact .true
  | false => exact .false
  | null => exact .null
  | scalar token => exact .scalar _
  | list items span =>
    rw [List.map_cons, List.map_append, Item.map_map (m := Value.map f) fun _ => rfl]
    show Rule σ (.value (.list (Value.mapAll f items) (span.map f))) _
    rw [Value.mapAll_eq]
    exact .list _ _
  | field aliasName name arguments directives selections span hwritten =>
    have hwritten := hwritten.map (f := f)
    rw [Item.map_map (m := Argument.map f) fun _ => rfl] at hwritten
    simp only [List.map_cons, List.map_append, Item.map_map_directives, map_fieldBody]
    show Rule σ (.selection (.field _ _ _ _ (Selection.mapAll f selections) _)) _
    rw [Selection.mapAll_eq]
    have hrule := Rule.field (σ := σ) (aliasName.map (Token.map f)) (name.map f) _
      (directives.map (Directive.map f)) (selections.map (Selection.map f)) (span.map f) hwritten
    cases aliasName <;> exact hrule
  | fragmentSpread name directives span =>
    simp only [List.map_cons, Item.map_map_directives]
    exact .fragmentSpread _ _ _
  | inlineFragment typeCondition directives selections span =>
    simp only [List.map_cons, List.map_append, Item.map_map_directives, Item.map_braced,
      Item.map_map_selections]
    show Rule σ (.selection (.inlineFragment _ _ (Selection.mapAll f selections) _)) _
    rw [Selection.mapAll_eq]
    have hrule := Rule.inlineFragment (σ := σ) (typeCondition.map (Token.map f))
      (directives.map (Directive.map f)) (selections.map (Selection.map f)) (span.map f)
    cases typeCondition <;> exact hrule

/-! ## Parts -/

/-- A moved span covers the moved pieces. -/
theorem Covers.map {span : Span} {pieces : List Piece} (h : Covers span pieces) :
    Covers (span.map f) (pieces.map (Piece.map f)) := by
  obtain ⟨hstart, hstop⟩ := h
  refine ⟨?_, ?_⟩
  · rw [List.head?_map, Option.map_map]
    have := congrArg (Option.map f) hstart
    rwa [Option.map_map] at this
  · rw [List.getLast?_map, Option.map_map]
    have := congrArg (Option.map f) hstop
    rwa [Option.map_map] at this

mutual

/-- A moved part is written with the moved pieces of the part. -/
theorem Part.Spelled.map {p : Part} {pieces : List Piece} (h : p.Spelled σ pieces) :
    (p.map f).Spelled σ (pieces.map (Piece.map f)) :=
  match h with
  | .token t span hspan => .token (t.map f) (span.map f) hspan.map
  | .sigilName sigil t span hspan => .sigilName sigil (t.map f) (span.map f) hspan.map
  | .node hn hrule hitems hspan =>
    .node hn.map hrule.map hitems.map fun moved hmoved => by
      rw [Node.span?_map] at hmoved
      obtain ⟨span, hmem, rfl⟩ := Option.map_eq_some_iff.mp hmoved
      exact (hspan span hmem).map

theorem Item.Spelled.map {items : List Item} {pieces : List Piece}
    (h : Item.Spelled σ items pieces) :
    Item.Spelled σ (items.map (Item.map f)) (pieces.map (Piece.map f)) :=
  match h with
  | .nil => .nil
  | .terminal t span h => .terminal t (span.map f) h.map
  | .part hp h => by
    rw [List.map_append]
    exact .part hp.map h.map

end

end GraphQLSyntax
