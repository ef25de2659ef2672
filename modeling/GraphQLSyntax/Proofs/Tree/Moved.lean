import GraphQLSyntax.Proofs.Tree.WellFormed

/-!
# Trees at other places

A tree keeps where each of its nodes and tokens stands. `Document.map` moves all of these positions
and leaves the rest of the tree as it is.

* `Document.erased`: a tree with all positions forgotten.
* `Selection.setDepth_map`, `Value.listDepth_map`: moving a tree does not change how deep it nests.
* `Definition.map_id_fun`: a tree whose positions stay is the same tree.
* `Node.WellFormed.map`: moving a node leaves it well formed.
-/

namespace GraphQLSyntax

section

variable (f : Position → Position)

def Span.map (s : Span) : Span := ⟨f s.start, f s.stop⟩

def Token.map (t : Token) : Token := { t with span := t.span.map f }

def TypeRef.map (t : TypeRef) : TypeRef := ⟨t.name.map f, t.wrapping, t.span.map f⟩

mutual

def Value.map : Value → Value
  | .boolean value => .boolean value
  | .null => .null
  | .scalar token => .scalar (token.map f)
  | .list items span => .list (Value.mapAll items) (span.map f)

/-- Some values, each moved. -/
def Value.mapAll : List Value → List Value
  | [] => []
  | v :: rest => v.map :: Value.mapAll rest

end

def ArgumentValue.map : ArgumentValue → ArgumentValue
  | literal value => literal (value.map f)
  | reference variableName => reference (variableName.map f)

def Argument.map (a : Argument) : Argument := ⟨a.name.map f, a.value.map f, a.span.map f⟩

def Directive.map (d : Directive) : Directive :=
  ⟨d.name.map f, d.arguments.map (Argument.map f), d.span.map f⟩

mutual

def Selection.map : Selection → Selection
  | .field aliasName name arguments directives selections span =>
    .field (aliasName.map (Token.map f)) (name.map f) (arguments.map (Argument.map f))
      (directives.map (Directive.map f)) (Selection.mapAll selections) (span.map f)
  | .fragmentSpread name directives span =>
    .fragmentSpread (name.map f) (directives.map (Directive.map f)) (span.map f)
  | .inlineFragment typeCondition directives selections span =>
    .inlineFragment (typeCondition.map (Token.map f)) (directives.map (Directive.map f))
      (Selection.mapAll selections) (span.map f)

/-- Some selections, each moved. -/
def Selection.mapAll : List Selection → List Selection
  | [] => []
  | s :: rest => s.map :: Selection.mapAll rest

end

def VariableDefinition.map (v : VariableDefinition) : VariableDefinition :=
  ⟨v.name.map f, v.type.map f, v.default.map (Value.map f), v.directives.map (Directive.map f),
    v.span.map f⟩

def OperationHeader.map (h : OperationHeader) : OperationHeader :=
  ⟨h.kind, h.keyword.map f, h.name.map (Token.map f),
    h.variableDefinitions.map (VariableDefinition.map f), h.directives.map (Directive.map f)⟩

def Operation.map (o : Operation) : Operation :=
  ⟨o.header.map (OperationHeader.map f), o.selections.map (Selection.map f), o.span.map f⟩

def Fragment.map (x : Fragment) : Fragment :=
  ⟨x.name.map f, x.typeCondition.map f, x.directives.map (Directive.map f),
    x.selections.map (Selection.map f), x.span.map f⟩

def Definition.map : Definition → Definition
  | operation o => operation (o.map f)
  | fragment x => fragment (x.map f)

def Document.map (d : Document) : Document :=
  ⟨d.definitions.map (Definition.map f), d.span.map f⟩

def Node.map : Node → Node
  | operation o => operation (o.map f)
  | fragment x => fragment (x.map f)
  | variableDefinition v => variableDefinition (v.map f)
  | typeRef t => typeRef (t.map f)
  | directive d => directive (d.map f)
  | argument a => argument (a.map f)
  | reference variableName => reference (variableName.map f)
  | value v => value (v.map f)
  | selection s => selection (s.map f)

end

/-- Takes every position to the same one. -/
def Position.forget (_ : Position) : Position := .start

/-- A document with all positions forgotten. -/
def Document.erased (d : Document) : Document := d.map Position.forget

/-! ## Lists of trees -/

section

variable {f : Position → Position}

@[simp] theorem Value.mapAll_eq (items : List Value) :
    Value.mapAll f items = items.map (Value.map f) := by
  induction items with
  | nil => rfl
  | cons v rest ih => rw [Value.mapAll, ih, List.map_cons]

@[simp] theorem Selection.mapAll_eq (selections : List Selection) :
    Selection.mapAll f selections = selections.map (Selection.map f) := by
  induction selections with
  | nil => rfl
  | cons s rest ih => rw [Selection.mapAll, ih, List.map_cons]

/-! ## Depth -/

mutual

theorem Value.listDepth_map (v : Value) : (v.map f).listDepth = v.listDepth := by
  match v with
  | .boolean _ => rfl
  | .null => rfl
  | .scalar _ => rfl
  | .list items _ => exact congrArg (· + 1) (Value.itemsDepth_mapAll items)

theorem Value.itemsDepth_mapAll (items : List Value) :
    Value.itemsDepth (Value.mapAll f items) = Value.itemsDepth items := by
  match items with
  | [] => rfl
  | v :: rest =>
    rw [Value.mapAll, Value.itemsDepth, Value.itemsDepth, Value.listDepth_map v,
      Value.itemsDepth_mapAll rest]

end

mutual

theorem Selection.depth_map (s : Selection) : (s.map f).depth = s.depth := by
  match s with
  | .field _ _ _ _ [] _ => rfl
  | .field _ _ _ _ (s :: rest) _ => exact Selection.setDepth_mapAll (s :: rest)
  | .fragmentSpread _ _ _ => rfl
  | .inlineFragment _ _ selections _ => exact Selection.setDepth_mapAll selections

theorem Selection.setDepth_mapAll (selections : List Selection) :
    Selection.setDepth (Selection.mapAll f selections) = Selection.setDepth selections := by
  match selections with
  | [] => rfl
  | s :: rest =>
    rw [Selection.mapAll, Selection.setDepth, Selection.setDepth, Selection.depth_map s,
      Selection.setDepth_mapAll rest]

end

theorem Selection.setDepth_map (selections : List Selection) :
    Selection.setDepth (selections.map (Selection.map f)) = Selection.setDepth selections := by
  rw [← Selection.mapAll_eq, Selection.setDepth_mapAll]

/-! ## Staying in place -/

@[simp] theorem Token.map_id_fun : Token.map id = id := rfl

mutual

theorem Value.map_id (v : Value) : v.map id = v := by
  match v with
  | .boolean _ => rfl
  | .null => rfl
  | .scalar _ => rfl
  | .list items span => exact congrArg (Value.list · span) (Value.mapAll_id items)

theorem Value.mapAll_id (items : List Value) : Value.mapAll id items = items := by
  match items with
  | [] => rfl
  | v :: rest => rw [Value.mapAll, Value.map_id v, Value.mapAll_id rest]

end

@[simp] theorem Value.map_id_fun : Value.map id = id := funext Value.map_id

@[simp] theorem Argument.map_id_fun : Argument.map id = id := by
  funext a
  obtain ⟨name, value, span⟩ := a
  cases value <;> simp [Argument.map, ArgumentValue.map, Span.map]

@[simp] theorem Directive.map_id_fun : Directive.map id = id := by
  funext d
  simp [Directive.map, Span.map]

mutual

theorem Selection.map_id (s : Selection) : s.map id = s := by
  match s with
  | .field _ _ _ _ selections _ =>
    rw [Selection.map, Selection.mapAll_id selections]
    simp [Span.map]
  | .fragmentSpread _ _ _ => simp [Selection.map, Span.map]
  | .inlineFragment _ _ selections _ =>
    rw [Selection.map, Selection.mapAll_id selections]
    simp [Span.map]

theorem Selection.mapAll_id (selections : List Selection) :
    Selection.mapAll id selections = selections := by
  match selections with
  | [] => rfl
  | s :: rest => rw [Selection.mapAll, Selection.map_id s, Selection.mapAll_id rest]

end

@[simp] theorem Selection.map_id_fun : Selection.map id = id := funext Selection.map_id

@[simp] theorem VariableDefinition.map_id_fun : VariableDefinition.map id = id := by
  funext v
  simp [VariableDefinition.map, TypeRef.map, Span.map]

theorem Definition.map_id_fun : Definition.map id = id := by
  funext d
  cases d with
  | operation o =>
    obtain ⟨header, selections, span⟩ := o
    cases header <;> simp [Definition.map, Operation.map, OperationHeader.map, Span.map]
  | fragment x => simp [Definition.map, Fragment.map, Span.map]

/-! ## Nodes -/

theorem Node.span?_map (n : Node) : (n.map f).span? = n.span?.map (Span.map f) := by
  cases n with
  | value v => cases v <;> rfl
  | selection s => cases s <;> rfl
  | _ => rfl

theorem Token.isPlainName_map {name : Option Token} (h : ∀ t ∈ name, t.IsPlainName) :
    ∀ t ∈ name.map (Token.map f), t.IsPlainName := by
  intro t ht
  obtain ⟨t', ht', rfl⟩ := Option.map_eq_some_iff.mp ht
  exact h t' ht'

theorem OperationHeader.WellFormed.map {h : OperationHeader} (hh : h.WellFormed) :
    (h.map f).WellFormed := by
  obtain ⟨hkind, hspelling, htype, hname⟩ := hh
  exact ⟨hkind, hspelling, htype, Token.isPlainName_map hname⟩

/-- What the grammar asks of a node has nothing to do with where it stands. -/
theorem Node.WellFormed.map {n : Node} (h : n.WellFormed) : (n.map f).WellFormed := by
  cases n with
  | operation o =>
    refine ⟨fun header hheader => ?_, ?_⟩
    · obtain ⟨header', hmem, rfl⟩ := Option.map_eq_some_iff.mp hheader
      exact (h.1 header' hmem).map
    · rw [Operation.map, Selection.setDepth_map]
      exact h.2
  | fragment x =>
    obtain ⟨hname, hreserved, htype, hdepth⟩ := h
    refine ⟨hname, hreserved, htype, ?_⟩
    rw [Fragment.map, Selection.setDepth_map]
    exact hdepth
  | value v =>
    cases v with
    | list items span =>
      have hdepth : (Value.list items span).listDepth ≤ Reader.maxListDepth := h
      rwa [← Value.listDepth_map (f := f)] at hdepth
    | _ => exact h
  | selection s =>
    cases s with
    | field => exact ⟨Token.isPlainName_map h.1, h.2⟩
    | fragmentSpread => exact h
    | inlineFragment =>
      refine ⟨Token.isPlainName_map h.1, ?_⟩
      simpa using h.2
  | _ => exact h

end

end GraphQLSyntax
