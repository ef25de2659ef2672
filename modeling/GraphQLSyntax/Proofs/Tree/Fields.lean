import Mathlib.Algebra.GroupWithZero.Nat
import GraphQLSyntax.Tree.Outline

/-!
# Fields of a document

* `Outline.fields`: how many nodes of an outline are fields.
* `Document.fieldCount_eq_fields`: the fields of a document are those nodes of its outline, whatever
  fragment and at whatever depth they stand in.
-/

namespace GraphQLSyntax

/-- Whether a node is a field. -/
def Node.isField : Node → Bool
  | selection (.field ..) => true
  | _ => false

/-- The number of fields among the nodes of a tree. -/
def Outline.fields (nodes : Outline) : Nat := nodes.countP fun entry => entry.2.isField

namespace Outline

variable {α : Type}

@[simp] theorem fields_nil : fields [] = 0 := rfl

theorem fields_cons (depth : Nat) (n : Node) (rest : Outline) :
    fields ((depth, n) :: rest) = fields rest + if n.isField then 1 else 0 :=
  List.countP_cons ..

@[simp] theorem fields_append (nodes more : Outline) :
    fields (nodes ++ more) = fields nodes + fields more := List.countP_append

theorem fields_flatMap (f : α → Outline) (as : List α) :
    fields (as.flatMap f) = (as.map fun a => fields (f a)).sum := List.countP_flatMap

theorem fields_flatMap_eq_zero {f : α → Outline} (h : ∀ a, fields (f a) = 0) (as : List α) :
    fields (as.flatMap f) = 0 := by
  induction as with
  | nil => rfl
  | cons a rest ih => rw [List.flatMap_cons, fields_append, h, ih]

end Outline

/-! ## Nodes without fields -/

mutual

@[simp] theorem Value.fields_outline (depth : Nat) (v : Value) :
    Outline.fields (v.outline depth) = 0 := by
  match v with
  | .boolean _ => rfl
  | .null => rfl
  | .scalar _ => rfl
  | .list items _ =>
    rw [Value.outline, Outline.fields_cons, Value.fields_outlineAll (depth + 1) items]
    rfl

theorem Value.fields_outlineAll (depth : Nat) (items : List Value) :
    Outline.fields (Value.outlineAll depth items) = 0 := by
  match items with
  | [] => rfl
  | v :: rest =>
    rw [Value.outlineAll, Outline.fields_append, Value.fields_outline depth v,
      Value.fields_outlineAll depth rest]

end

@[simp] theorem Argument.fields_outline (depth : Nat) (a : Argument) :
    Outline.fields (a.outline depth) = 0 := by
  obtain ⟨name, value, span⟩ := a
  cases value with
  | literal v => simp [Argument.outline, Outline.fields_cons, Node.isField]
  | reference variableName => rfl

@[simp] theorem Directive.fields_outline (depth : Nat) (d : Directive) :
    Outline.fields (d.outline depth) = 0 := by
  rw [Directive.outline, Outline.fields_cons,
    Outline.fields_flatMap_eq_zero (Argument.fields_outline (depth + 1))]
  rfl

@[simp] theorem VariableDefinition.fields_outline (depth : Nat) (v : VariableDefinition) :
    Outline.fields (v.outline depth) = 0 := by
  have hdirectives :=
    Outline.fields_flatMap_eq_zero (Directive.fields_outline (depth + 1)) v.directives
  cases hdefault : v.default <;>
    simp [VariableDefinition.outline, Outline.fields_cons, Node.isField, hdirectives, hdefault]

/-! ## Selections and definitions -/

mutual

theorem Selection.fields_outline (depth : Nat) (s : Selection) :
    Outline.fields (s.outline depth) = s.fieldCount := by
  match s with
  | .field _ _ arguments directives selections _ =>
    rw [Selection.outline, Outline.fields_cons, Outline.fields_append, Outline.fields_append,
      Outline.fields_flatMap_eq_zero (Argument.fields_outline (depth + 1)),
      Outline.fields_flatMap_eq_zero (Directive.fields_outline (depth + 1)),
      Selection.fields_outlineAll (depth + 1) selections, Selection.fieldCount, Nat.add_zero,
      Nat.zero_add]
    rfl
  | .fragmentSpread _ directives _ =>
    rw [Selection.outline, Outline.fields_cons,
      Outline.fields_flatMap_eq_zero (Directive.fields_outline (depth + 1))]
    rfl
  | .inlineFragment _ directives selections _ =>
    rw [Selection.outline, Outline.fields_cons, Outline.fields_append,
      Outline.fields_flatMap_eq_zero (Directive.fields_outline (depth + 1)),
      Selection.fields_outlineAll (depth + 1) selections, Selection.fieldCount, Nat.zero_add]
    rfl

theorem Selection.fields_outlineAll (depth : Nat) (selections : List Selection) :
    Outline.fields (Selection.outlineAll depth selections) =
      Selection.fieldCountAll selections := by
  match selections with
  | [] => rfl
  | s :: rest =>
    rw [Selection.outlineAll, Outline.fields_append, Selection.fields_outline depth s,
      Selection.fields_outlineAll depth rest, Selection.fieldCountAll]

end

theorem Operation.fields_outline (depth : Nat) (o : Operation) :
    Outline.fields (o.outline depth) = Selection.fieldCountAll o.selections := by
  rw [Operation.outline, Outline.fields_cons, Outline.fields_append, Outline.fields_append,
    Outline.fields_flatMap_eq_zero (VariableDefinition.fields_outline (depth + 1)),
    Outline.fields_flatMap_eq_zero (Directive.fields_outline (depth + 1)),
    Selection.fields_outlineAll, Nat.add_zero, Nat.zero_add]
  rfl

theorem Fragment.fields_outline (depth : Nat) (f : Fragment) :
    Outline.fields (f.outline depth) = Selection.fieldCountAll f.selections := by
  rw [Fragment.outline, Outline.fields_cons, Outline.fields_append,
    Outline.fields_flatMap_eq_zero (Directive.fields_outline (depth + 1)),
    Selection.fields_outlineAll, Nat.zero_add]
  rfl

namespace Document

/-- Operations and fragments together hold what the definitions hold. -/
theorem sum_definitions (g : List Selection → Nat) (definitions : List Definition) :
    ((definitions.filterMap Definition.operation?).map fun o => g o.selections).sum +
      ((definitions.filterMap Definition.fragment?).map fun f => g f.selections).sum =
        (definitions.map fun x => g x.selections).sum := by
  induction definitions with
  | nil => rfl
  | cons x rest ih =>
    cases x with
    | operation o =>
      have hoperation : Definition.operation? (.operation o) = some o := rfl
      have hfragment : Definition.fragment? (.operation o) = none := rfl
      rw [List.filterMap_cons_some hoperation, List.filterMap_cons_none hfragment, List.map_cons,
        List.sum_cons, Nat.add_assoc, ih]
      rfl
    | fragment f =>
      have hoperation : Definition.operation? (.fragment f) = none := rfl
      have hfragment : Definition.fragment? (.fragment f) = some f := rfl
      rw [List.filterMap_cons_none hoperation, List.filterMap_cons_some hfragment, List.map_cons,
        List.sum_cons, Nat.add_left_comm, ih]
      rfl

/-- The fields of a document are the fields among its nodes. -/
theorem fieldCount_eq_fields (d : Document) : d.fieldCount = d.outline.fields := by
  rw [outline, Outline.fields_append, Outline.fields_flatMap, Outline.fields_flatMap]
  simp only [Operation.fields_outline, Fragment.fields_outline]
  rw [operations, fragments, sum_definitions Selection.fieldCountAll, fieldCount,
    List.sum_eq_foldl, List.foldl_map]

end Document

end GraphQLSyntax
