import GraphQLSyntax.Grammar.Document
import GraphQLSyntax.Proofs.Tree.Part

/-!
# Well-formed trees

What the grammar asks of a tree beyond the shape that its type gives it.

* `Selection.setDepth`, `Value.listDepth`: how deep selection sets and list values nest.
* `Node.WellFormed`: a node has tokens of the right kinds, is not named as a keyword, is not empty
  where it must not be, and nests no deeper than it may.
-/

namespace GraphQLSyntax

/-! ## Depth -/

mutual

/-- How deep selection sets nest in a selection. A field without selections has no set. -/
def Selection.depth : Selection → Nat
  | .field _ _ _ _ selections _ => if selections.isEmpty then 0 else Selection.setDepth selections
  | .fragmentSpread _ _ _ => 0
  | .inlineFragment _ _ selections _ => Selection.setDepth selections

/-- How deep selection sets nest in the set of some selections, which counts as one. -/
def Selection.setDepth : List Selection → Nat
  | [] => 1
  | s :: rest => max (s.depth + 1) (Selection.setDepth rest)

end

mutual

/-- How deep lists nest in a value. -/
def Value.listDepth : Value → Nat
  | .list items _ => Value.itemsDepth items + 1
  | _ => 0

/-- How deep lists nest in some values. -/
def Value.itemsDepth : List Value → Nat
  | [] => 0
  | v :: rest => max v.listDepth (Value.itemsDepth rest)

end

theorem Selection.setDepth_le_iff {selections : List Selection} {n : Nat} :
    Selection.setDepth selections ≤ n + 1 ↔ ∀ s ∈ selections, s.depth ≤ n := by
  induction selections with
  | nil => simp [Selection.setDepth]
  | cons s rest ih =>
    rw [Selection.setDepth, Nat.max_le, ih, List.forall_mem_cons, Nat.add_le_add_iff_right]

theorem Selection.one_le_setDepth (selections : List Selection) :
    1 ≤ Selection.setDepth selections := by
  cases selections with
  | nil => exact Nat.le_refl 1
  | cons s rest =>
    rw [Selection.setDepth]
    omega

/-- A set nests deeper than its selections. -/
theorem Selection.depth_lt_setDepth {s : Selection} {ss : List Selection} (h : s ∈ ss) :
    s.depth < Selection.setDepth ss := by
  obtain ⟨n, hn⟩ := Nat.exists_eq_add_of_le' (Selection.one_le_setDepth ss)
  have hle := Selection.setDepth_le_iff.mp (Nat.le_of_eq hn) s h
  omega

/-- A selection nests deeper than those in its set. -/
theorem Selection.depth_lt_of_part {s s' : Selection}
    (h : .node (.selection s) ∈ Node.selectionParts s') : s.depth < s'.depth := by
  cases s' with
  | field aliasName name arguments directives selections span =>
    have hs : s ∈ selections := by simpa [Node.selectionParts] using h
    rw [depth, if_neg (by simpa using List.ne_nil_of_mem hs)]
    exact depth_lt_setDepth hs
  | fragmentSpread => simp [Node.selectionParts] at h
  | inlineFragment typeCondition directives selections span =>
    have hs : s ∈ selections := by simpa [Node.selectionParts] using h
    exact depth_lt_setDepth hs

theorem Value.itemsDepth_le_iff {items : List Value} {n : Nat} :
    Value.itemsDepth items ≤ n ↔ ∀ v ∈ items, v.listDepth ≤ n := by
  induction items with
  | nil => simp [Value.itemsDepth]
  | cons v rest ih => rw [Value.itemsDepth, Nat.max_le, ih, List.forall_mem_cons]

/-! ## Nodes -/

/-- A token is a name that stands for nothing but itself. -/
def Token.IsPlainName (t : Token) : Prop := t.lexeme = .name ∧ t.type = none

/-- A token is a literal, with the type that its kind denotes. No member of an enum is called
`true`, `false` or `null`. -/
def Token.IsLiteral (t : Token) : Prop :=
  t.lexeme ∈ [.int, .float, .string, .blockString, .enum, .object] ∧
    t.type = TokenType.ofLexeme? t.lexeme ∧
    (t.lexeme = .enum → t.text ∉ ["true", "false", "null"])

theorem Token.isLiteral_literal {kind : Lexeme} {text : String} (span : Span)
    (hkind : kind ∈ [.int, .float, .string, .blockString, .enum, .object])
    (htext : kind = .enum → text ∉ ["true", "false", "null"]) :
    (Token.literal kind text span).IsLiteral := ⟨hkind, rfl, htext⟩

/-- The keyword of a header spells the kind of operation. -/
def OperationHeader.WellFormed (h : OperationHeader) : Prop :=
  OperationKind.ofLexeme? h.keyword.lexeme = some h.kind ∧
    h.keyword.lexeme.spelling? = some h.keyword.text ∧ h.keyword.type = none ∧
    ∀ name ∈ h.name, name.IsPlainName

/-- What the grammar asks of a selection. A fragment cannot be called `on`, and an inline fragment
selects something. -/
def Selection.WellFormed : Selection → Prop
  | .field aliasName name _ _ _ _ => (∀ t ∈ aliasName, t.IsPlainName) ∧ name.IsPlainName
  | .fragmentSpread name _ _ => name.IsPlainName ∧ name.text ≠ "on"
  | .inlineFragment typeCondition _ selections _ =>
    (∀ t ∈ typeCondition, t.IsPlainName) ∧ selections ≠ []

/-- What the grammar asks of a value. -/
def Value.WellFormed : Value → Prop
  | .boolean _ | .null => True
  | .scalar token => token.IsLiteral
  | .list items span => (Value.list items span).listDepth ≤ Reader.maxListDepth

/-- What the grammar asks of a node. -/
def Node.WellFormed : Node → Prop
  | .operation o => (∀ h ∈ o.header, h.WellFormed) ∧
    Selection.setDepth o.selections ≤ Reader.maxSelectionDepth
  | .fragment f => f.name.IsPlainName ∧ f.name.text ≠ "on" ∧ f.typeCondition.IsPlainName ∧
    Selection.setDepth f.selections ≤ Reader.maxSelectionDepth
  | .variableDefinition v => v.name.IsPlainName
  | .typeRef t => t.name.IsPlainName ∧ t.dimensions < Reader.maxLists
  | .directive d => d.name.IsPlainName
  | .argument a => a.name.IsPlainName
  | .reference variableName =>
    variableName.lexeme = .name ∧ variableName.type = some .variableName
  | .value v => v.WellFormed
  | .selection s => s.WellFormed

end GraphQLSyntax
