import GraphQLSyntax.Proofs.Tree.WellFormed

/-!
# Shape and nesting

What the grammar asks of a node is that it has the right shape, and that nothing nests too deep in
it.

* `Node.Shaped`: the right shape, however deep anything nests.
* `Node.Nests`: nothing nests deeper than it may.
* `Node.wellFormed_iff`: a node is well formed where both hold.
* `Document.Nests`: nothing in a document nests deeper than it may.
-/

namespace GraphQLSyntax

/-- What the grammar asks of a node, however deep anything nests in it. -/
def Node.Shaped : Node → Prop
  | .operation o => ∀ h ∈ o.header, h.WellFormed
  | .fragment f => f.name.IsPlainName ∧ f.name.text ≠ "on" ∧ f.typeCondition.IsPlainName
  | .typeRef t => t.name.IsPlainName
  | .value (.scalar token) => token.IsLiteral
  | .value _ => True
  | n => n.WellFormed

/-- The selection sets of a definition nest at most 64 deep, and so do the lists of a value. A type
has at most 63 dimensions. -/
def Node.Nests : Node → Prop
  | .operation o => Selection.setDepth o.selections ≤ 64
  | .fragment f => Selection.setDepth f.selections ≤ 64
  | .value v => v.listDepth ≤ 64
  | .typeRef t => t.dimensions ≤ 63
  | _ => True

/-- A node is well formed where it has the right shape and nothing in it nests too deep. -/
theorem Node.wellFormed_iff {n : Node} : n.WellFormed ↔ n.Shaped ∧ n.Nests := by
  cases n with
  | operation o => rfl
  | fragment f => simp only [WellFormed, Shaped, Nests, Reader.maxSelectionDepth, and_assoc]
  | typeRef t => simp only [WellFormed, Shaped, Nests, Reader.maxLists, Nat.lt_succ_iff]
  | value v => cases v <;> simp [WellFormed, Shaped, Nests, Value.WellFormed, Value.listDepth,
      Reader.maxListDepth]
  | _ => exact (and_iff_left trivial).symm

/-- In every node of a document, nothing nests deeper than it may. -/
def Document.Nests (d : Document) : Prop := ∀ p ∈ d.parts, ∀ n, p.Contains (.node n) → n.Nests

end GraphQLSyntax
