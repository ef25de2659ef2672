import GraphQLSyntax.Proofs.Print.Shaped

/-!
# Terminals with levels

The terminals that a document is printed with, each with what it opens: a selection set or a list,
at the level at which it nests, or the lists of a type.

* `Opening.tooDeep`: what opens more levels than may nest.
* `Document.leveled`: the terminals of a document, with what they open.
* `Document.terminals_leveled`: they are the terminals that are printed.
* `Document.nests_of_leveled`: where none of them opens a level too many, the document nests no
  deeper than it may.
-/

namespace GraphQLSyntax

/-- What a terminal opens. The level of a selection set or a list is one where it lies in no
other. -/
inductive Opening where
  | selectionSet (level : Nat)
  | list (level : Nat)
  /-- The first bracket of a type opens all of its lists. -/
  | type (dimensions : Nat)
deriving DecidableEq, Repr, Inhabited

/-- Whether this is the 65th selection set or list of those that lie in one another, or a type with
64 or more dimensions. -/
def Opening.tooDeep : Opening → Bool
  | selectionSet level => 64 < level
  | list level => 64 < level
  | type dimensions => 64 ≤ dimensions

/-- A terminal, and what it opens. -/
structure Leveled where
  terminal : Terminal
  opens : Option Opening
deriving DecidableEq, Repr, Inhabited

namespace Leveled

/-- A terminal that opens nothing. -/
def plain (t : Terminal) : Leveled := ⟨t, none⟩

/-- Whether a terminal opens a level too many. -/
def tooDeep (x : Leveled) : Bool := x.opens.any Opening.tooDeep

/-- The opening brackets of a type. -/
def openings : (brackets : Nat) → List Leveled
  | 0 => []
  | brackets + 1 => ⟨.lexeme .squareOpen "[", some (.type (brackets + 1))⟩ ::
      List.replicate brackets (plain (.mark '['))

/-- A selection set at a level. -/
def braced (level : Nat) (xs : List Leveled) : List Leveled :=
  ⟨.lexeme .curlyOpen "\x7b", some (.selectionSet level)⟩ ::
    (xs ++ [plain (.lexeme .curlyClose "\x7d")])

/-- A list at a level. -/
def bracketed (level : Nat) (xs : List Leveled) : List Leveled :=
  ⟨.lexeme .squareOpen "[", some (.list level)⟩ :: (xs ++ [plain (.lexeme .squareClose "]")])

/-- Some terminals between parentheses, which are left out around nothing. -/
def parenthesised (xs : List Leveled) : List Leveled :=
  if xs.isEmpty then [] else
    plain (.lexeme .parenOpen "(") :: (xs ++ [plain (.lexeme .parenClose ")")])

end Leveled

open Leveled

/-! ## Trees -/

def TypeRef.leveled (t : TypeRef) : List Leveled :=
  openings t.dimensions ++ plain t.name.terminal :: t.wrapping.closings.map fun c => plain (.mark c)

mutual

/-- The terminals of a value that lies in `outer` lists. -/
def Value.leveled (outer : Nat) : Value → List Leveled
  | .boolean true => [plain (.keyword "true")]
  | .boolean false => [plain (.keyword "false")]
  | .null => [plain (.keyword "null")]
  | .scalar token => [plain token.terminal]
  | .list items _ => bracketed (outer + 1) (Value.leveledAll (outer + 1) items)

/-- The terminals of some values that lie in `outer` lists. -/
def Value.leveledAll (outer : Nat) : List Value → List Leveled
  | [] => []
  | v :: rest => v.leveled outer ++ Value.leveledAll outer rest

end

def ArgumentValue.leveled : ArgumentValue → List Leveled
  | literal v => v.leveled 0
  | reference variableName => [plain (.sigilName '$' variableName.text)]

def Argument.leveled (a : Argument) : List Leveled :=
  plain a.name.terminal :: plain (.lexeme .colon ":") :: a.value.leveled

def Directive.leveled (d : Directive) : List Leveled :=
  plain (.sigilName '@' d.name.text) :: parenthesised (d.arguments.flatMap Argument.leveled)

mutual

/-- The terminals of a selection that lies in `outer` selection sets. -/
def Selection.leveled (outer : Nat) : Selection → List Leveled
  | .field aliasName name arguments directives selections _ =>
    aliasName.toList.flatMap (fun t => [plain t.terminal, plain (.lexeme .colon ":")]) ++
      plain name.terminal :: (parenthesised (arguments.flatMap Argument.leveled) ++
        (directives.flatMap Directive.leveled ++ if selections.isEmpty then [] else
          braced (outer + 1) (Selection.leveledAll (outer + 1) selections)))
  | .fragmentSpread name directives _ =>
    plain .spread :: plain name.terminal :: directives.flatMap Directive.leveled
  | .inlineFragment typeCondition directives selections _ =>
    plain .spread ::
      (typeCondition.toList.flatMap (fun t => [plain (.keyword "on"), plain t.terminal]) ++
        (directives.flatMap Directive.leveled ++
          braced (outer + 1) (Selection.leveledAll (outer + 1) selections)))

/-- The terminals of some selections that lie in `outer` selection sets. -/
def Selection.leveledAll (outer : Nat) : List Selection → List Leveled
  | [] => []
  | s :: rest => s.leveled outer ++ Selection.leveledAll outer rest

end

def VariableDefinition.leveled (v : VariableDefinition) : List Leveled :=
  plain (.sigilName '$' v.name.text) :: plain (.lexeme .colon ":") :: (v.type.leveled ++
    (v.default.toList.flatMap (fun x => plain (.lexeme .equals "=") :: x.leveled 0) ++
      v.directives.flatMap Directive.leveled))

/-- The selections of a definition, with their braces. -/
def Definition.leveledBody (selections : List Selection) : List Leveled :=
  braced 1 (Selection.leveledAll 1 selections)

def Definition.leveled : Definition → List Leveled
  | operation ⟨none, selections, _⟩ => leveledBody selections
  | operation ⟨some header, selections, _⟩ =>
    plain header.keyword.terminal :: (header.name.toList.map (fun t => plain t.terminal) ++
      (parenthesised (header.variableDefinitions.flatMap VariableDefinition.leveled) ++
        (header.directives.flatMap Directive.leveled ++ leveledBody selections)))
  | fragment f =>
    plain (.keyword "fragment") :: plain f.name.terminal :: plain (.keyword "on") ::
      plain f.typeCondition.terminal ::
        (f.directives.flatMap Directive.leveled ++ leveledBody f.selections)

/-- The terminals that a document is printed with, each with what it opens. -/
def Document.leveled (d : Document) : List Leveled := d.definitions.flatMap Definition.leveled

/-! ## The terminals that are printed -/

namespace Leveled

/-- The terminals without their levels. -/
def terminals (xs : List Leveled) : List Terminal := xs.map terminal

variable {x : Leveled} {xs ys : List Leveled} {α : Type}

@[simp] theorem terminals_nil : terminals [] = [] := rfl

@[simp] theorem terminals_cons : terminals (x :: xs) = x.terminal :: terminals xs := rfl

@[simp] theorem terminals_append : terminals (xs ++ ys) = terminals xs ++ terminals ys :=
  List.map_append

@[simp] theorem terminals_map {as : List α} {f : α → Leveled} :
    terminals (as.map f) = as.map fun a => (f a).terminal := List.map_map

@[simp] theorem terminals_flatMap {as : List α} {f : α → List Leveled} :
    terminals (as.flatMap f) = as.flatMap fun a => terminals (f a) := List.map_flatMap

@[simp, grind =] theorem terminal_plain (t : Terminal) : (plain t).terminal = t := rfl

@[simp] theorem terminals_openings (brackets : Nat) :
    terminals (openings brackets) = Terminal.openings brackets := by
  cases brackets with
  | zero => rfl
  | succ brackets => simp [openings, Terminal.openings, terminals]

@[simp] theorem terminals_braced (level : Nat) :
    terminals (braced level xs) = Terminal.braced (terminals xs) := by
  simp [braced, Terminal.braced]

@[simp] theorem terminals_parenthesised :
    terminals (parenthesised xs) = Terminal.parenthesised (terminals xs) := by
  cases xs with
  | nil => rfl
  | cons x xs => simp [parenthesised, Terminal.parenthesised]

end Leveled

@[simp] theorem TypeRef.terminals_leveled (t : TypeRef) :
    Leveled.terminals t.leveled = t.terminals := by
  simp [leveled, TypeRef.terminals]

mutual

@[simp] theorem Value.terminals_leveled (outer : Nat) (v : Value) :
    Leveled.terminals (v.leveled outer) = v.terminals := by
  match v with
  | .boolean true => rfl
  | .boolean false => rfl
  | .null => rfl
  | .scalar token => rfl
  | .list items span =>
    simp [leveled, Value.terminals, bracketed, Value.terminals_leveledAll (outer + 1) items]

@[simp] theorem Value.terminals_leveledAll (outer : Nat) (items : List Value) :
    Leveled.terminals (Value.leveledAll outer items) = Value.terminalsAll items := by
  match items with
  | [] => rfl
  | v :: rest =>
    rw [leveledAll, terminals_append, Value.terminals_leveled outer v,
      Value.terminals_leveledAll outer rest, terminalsAll]

end

@[simp] theorem Argument.terminals_leveled (a : Argument) :
    Leveled.terminals a.leveled = a.terminals := by
  obtain ⟨name, value, span⟩ := a
  cases value <;> simp [leveled, ArgumentValue.leveled, terminals, ArgumentValue.terminals]

@[simp] theorem Directive.terminals_leveled (d : Directive) :
    Leveled.terminals d.leveled = d.terminals := by
  simp [leveled, terminals]

mutual

@[simp] theorem Selection.terminals_leveled (outer : Nat) (s : Selection) :
    Leveled.terminals (s.leveled outer) = s.terminals := by
  match s with
  | .field aliasName name arguments directives selections span =>
    have hselections := Selection.terminals_leveledAll (outer + 1) selections
    rw [leveled, Selection.terminals]
    split <;> simp [hselections]
  | .fragmentSpread name directives span => simp [leveled, Selection.terminals]
  | .inlineFragment typeCondition directives selections span =>
    simp [leveled, Selection.terminals, Selection.terminals_leveledAll (outer + 1) selections]

@[simp] theorem Selection.terminals_leveledAll (outer : Nat) (selections : List Selection) :
    Leveled.terminals (Selection.leveledAll outer selections) =
      Selection.terminalsAll selections := by
  match selections with
  | [] => rfl
  | s :: rest =>
    rw [leveledAll, terminals_append, Selection.terminals_leveled outer s,
      Selection.terminals_leveledAll outer rest, terminalsAll]

end

@[simp] theorem VariableDefinition.terminals_leveled (v : VariableDefinition) :
    Leveled.terminals v.leveled = v.terminals := by
  simp [leveled, terminals]

@[simp] theorem Definition.terminals_leveled (x : Definition) :
    Leveled.terminals x.leveled = x.terminals := by
  rcases x with ⟨_ | header, selections, span⟩ | f
  · simp [leveled, leveledBody, terminals]
  · simp [leveled, leveledBody, terminals]
  · simp [leveled, leveledBody, terminals]

/-- The terminals with levels are those that are printed. -/
@[simp] theorem Document.terminals_leveled (d : Document) :
    Leveled.terminals d.leveled = d.terminals := by
  simp [leveled, terminals]

/-! ## Lists of trees -/

theorem Value.leveledAll_eq (outer : Nat) (items : List Value) :
    Value.leveledAll outer items = items.flatMap (Value.leveled outer) := by
  induction items with
  | nil => rfl
  | cons v rest ih => rw [leveledAll, ih, List.flatMap_cons]

theorem Selection.leveledAll_eq (outer : Nat) (selections : List Selection) :
    Selection.leveledAll outer selections = selections.flatMap (Selection.leveled outer) := by
  induction selections with
  | nil => rfl
  | cons s rest ih => rw [leveledAll, ih, List.flatMap_cons]

/-- The selections of a field that lies in `outer` selection sets, with their braces. -/
def Selection.leveledBody (outer : Nat) (selections : List Selection) : List Leveled :=
  if selections.isEmpty then [] else
    braced (outer + 1) (Selection.leveledAll (outer + 1) selections)

theorem Selection.leveled_field (outer : Nat) (aliasName : Option Token) (name : Token)
    (arguments : List Argument) (directives : List Directive) (selections : List Selection)
    (span : Span) :
    (Selection.field aliasName name arguments directives selections span).leveled outer =
      aliasName.toList.flatMap (fun t => [plain t.terminal, plain (.lexeme .colon ":")]) ++
        plain name.terminal :: (parenthesised (arguments.flatMap Argument.leveled) ++
          (directives.flatMap Directive.leveled ++ leveledBody outer selections)) := by
  rw [leveled]
  rfl

/-! ## How deep trees nest whose terminals open no level too many -/

namespace Leveled

/-- None of these terminals opens a level too many. -/
def Clear (xs : List Leveled) : Prop := ∀ x ∈ xs, x.tooDeep = false

variable {x : Leveled} {xs ys : List Leveled} {level : Nat} {α : Type}

@[simp] theorem tooDeep_plain (t : Terminal) : (plain t).tooDeep = false := rfl

@[simp] theorem tooDeep_some (t : Terminal) (o : Opening) :
    tooDeep ⟨t, some o⟩ = o.tooDeep := rfl

@[simp] theorem clear_nil : Clear [] := fun _ h => nomatch h

@[simp] theorem clear_cons : Clear (x :: xs) ↔ x.tooDeep = false ∧ Clear xs :=
  List.forall_mem_cons

@[simp] theorem clear_append : Clear (xs ++ ys) ↔ Clear xs ∧ Clear ys := List.forall_mem_append

@[simp] theorem clear_flatMap {as : List α} {f : α → List Leveled} :
    Clear (as.flatMap f) ↔ ∀ a ∈ as, Clear (f a) := by
  simp only [Clear, List.mem_flatMap]
  grind

@[simp] theorem clear_braced : Clear (braced level xs) ↔ level ≤ 64 ∧ Clear xs := by
  simp [braced, Opening.tooDeep]

@[simp] theorem clear_bracketed : Clear (bracketed level xs) ↔ level ≤ 64 ∧ Clear xs := by
  simp [bracketed, Opening.tooDeep]

@[simp] theorem clear_parenthesised : Clear (parenthesised xs) ↔ Clear xs := by
  cases xs with
  | nil => rfl
  | cons x xs => simp [parenthesised]

theorem clear_openings {brackets : Nat} : Clear (openings brackets) ↔ brackets ≤ 63 := by
  cases brackets with
  | zero => simp [openings]
  | succ brackets =>
    have hrest : Clear (List.replicate brackets (plain (.mark '['))) := by
      intro x hx
      rw [List.eq_of_mem_replicate hx, tooDeep_plain]
    simp only [openings, clear_cons, tooDeep_some, Opening.tooDeep, hrest, and_true,
      decide_eq_false_iff_not]
    omega

end Leveled

mutual

theorem Value.listDepth_of_clear {outer : Nat} (v : Value) (houter : outer ≤ 64)
    (h : Clear (v.leveled outer)) : v.listDepth + outer ≤ 64 := by
  match v with
  | .list items span =>
    rw [leveled, clear_bracketed] at h
    have := Value.itemsDepth_of_clear items h.1 h.2
    rw [listDepth]
    omega
  | .boolean _ | .null | .scalar _ => simpa [listDepth] using houter

theorem Value.itemsDepth_of_clear {outer : Nat} (items : List Value) (houter : outer ≤ 64)
    (h : Clear (Value.leveledAll outer items)) : Value.itemsDepth items + outer ≤ 64 := by
  match items with
  | [] => simpa [itemsDepth] using houter
  | v :: rest =>
    rw [leveledAll, clear_append] at h
    have := Value.listDepth_of_clear v houter h.1
    have := Value.itemsDepth_of_clear rest houter h.2
    rw [itemsDepth]
    omega

end

mutual

theorem Selection.depth_of_clear {outer : Nat} (s : Selection) (houter : outer ≤ 64)
    (h : Clear (s.leveled outer)) : s.depth + outer ≤ 64 := by
  match s with
  | .field aliasName name arguments directives selections span =>
    by_cases hempty : selections.isEmpty
    · simpa [depth, hempty] using houter
    · rw [leveled, if_neg hempty] at h
      simp only [clear_append, clear_cons, clear_braced] at h
      obtain ⟨-, -, -, -, hlevel, hselections⟩ := h
      have := Selection.setDepth_of_clear selections hlevel hselections
      rw [depth, if_neg hempty]
      omega
  | .fragmentSpread name directives span => simpa [depth] using houter
  | .inlineFragment typeCondition directives selections span =>
    simp only [leveled, clear_append, clear_cons, clear_braced] at h
    obtain ⟨-, -, -, hlevel, hselections⟩ := h
    have := Selection.setDepth_of_clear selections hlevel hselections
    rw [depth]
    omega

theorem Selection.setDepth_of_clear {outer : Nat} (selections : List Selection)
    (houter : outer ≤ 64) (h : Clear (Selection.leveledAll outer selections)) :
    Selection.setDepth selections + outer ≤ 65 := by
  match selections with
  | [] =>
    rw [setDepth]
    omega
  | s :: rest =>
    rw [leveledAll, clear_append] at h
    have := Selection.depth_of_clear s houter h.1
    have := Selection.setDepth_of_clear rest houter h.2
    rw [setDepth]
    omega

end

/-- The terminals of a part open no level too many, wherever the part lies. -/
def Part.Clear : Part → Prop
  | node (.operation o) => Leveled.Clear (Definition.operation o).leveled
  | node (.fragment f) => Leveled.Clear (Definition.fragment f).leveled
  | node (.variableDefinition v) => Leveled.Clear v.leveled
  | node (.typeRef t) => Leveled.Clear t.leveled
  | node (.directive d) => Leveled.Clear d.leveled
  | node (.argument a) => Leveled.Clear a.leveled
  | node (.value v) => ∃ outer ≤ 64, Leveled.Clear (v.leveled outer)
  | node (.selection s) => ∃ outer, Leveled.Clear (s.leveled outer)
  | _ => True

namespace Part

variable {q : Part} {selections : List Selection} {outer : Nat}

theorem clear_of_selections (h : Leveled.Clear (Selection.leveledAll outer selections))
    (hq : q ∈ selections.map fun s => .node (.selection s)) : q.Clear := by
  rw [Selection.leveledAll_eq, clear_flatMap] at h
  obtain ⟨s, hs, rfl⟩ := List.mem_map.mp hq
  exact ⟨outer, h s hs⟩

theorem clear_of_directives {directives : List Directive}
    (h : ∀ d ∈ directives, Leveled.Clear d.leveled)
    (hq : q ∈ directives.map fun d => .node (.directive d)) : q.Clear := by
  obtain ⟨d, hd, rfl⟩ := List.mem_map.mp hq
  exact h d hd

theorem clear_of_arguments {arguments : List Argument}
    (h : ∀ a ∈ arguments, Leveled.Clear a.leveled)
    (hq : q ∈ arguments.map fun a => .node (.argument a)) : q.Clear := by
  obtain ⟨a, ha, rfl⟩ := List.mem_map.mp hq
  exact h a ha

theorem clear_of_tokens {tokens : List Token} (hq : q ∈ tokens.map .token) : q.Clear := by
  obtain ⟨t, -, rfl⟩ := List.mem_map.mp hq
  trivial

theorem clear_of_operation {o : Operation}
    (h : Leveled.Clear (Definition.operation o).leveled) (hq : q ∈ (Node.operation o).parts) :
    q.Clear := by
  obtain ⟨header, selections, span⟩ := o
  simp only [Node.parts, List.mem_append] at hq
  cases header with
  | none =>
    rw [Definition.leveled, Definition.leveledBody, clear_braced] at h
    rcases hq with (((hq | hq) | hq) | hq) | hq
    · exact clear_of_tokens hq
    · exact clear_of_tokens hq
    · cases hq
    · cases hq
    · exact clear_of_selections h.2 hq
  | some header =>
    rw [Definition.leveled, Definition.leveledBody] at h
    simp only [clear_append, clear_cons, clear_parenthesised, clear_flatMap, clear_braced] at h
    obtain ⟨-, -, hvariables, hdirectives, -, hselections⟩ := h
    rcases hq with (((hq | hq) | hq) | hq) | hq
    · exact clear_of_tokens hq
    · exact clear_of_tokens hq
    · obtain ⟨v, hv, rfl⟩ := List.mem_map.mp hq
      exact hvariables v hv
    · exact clear_of_directives hdirectives hq
    · exact clear_of_selections hselections hq

theorem clear_of_fragment {f : Fragment}
    (h : Leveled.Clear (Definition.fragment f).leveled) (hq : q ∈ (Node.fragment f).parts) :
    q.Clear := by
  rw [Definition.leveled, Definition.leveledBody] at h
  simp only [clear_append, clear_cons, clear_flatMap, clear_braced] at h
  obtain ⟨-, -, -, -, hdirectives, -, hselections⟩ := h
  simp only [Node.parts, List.mem_cons, List.mem_append] at hq
  rcases hq with rfl | rfl | hq | hq
  · trivial
  · trivial
  · exact clear_of_directives hdirectives hq
  · exact clear_of_selections hselections hq

theorem clear_of_variableDefinition {v : VariableDefinition} (h : Leveled.Clear v.leveled)
    (hq : q ∈ (Node.variableDefinition v).parts) : q.Clear := by
  rw [VariableDefinition.leveled] at h
  simp only [clear_append, clear_cons, clear_flatMap] at h
  obtain ⟨-, -, htype, hdefault, hdirectives⟩ := h
  simp only [Node.parts, List.mem_cons, List.mem_append] at hq
  rcases hq with rfl | rfl | hq | hq
  · trivial
  · exact htype
  · obtain ⟨x, hx, rfl⟩ := List.mem_map.mp hq
    exact ⟨0, by decide, (hdefault x hx).2⟩
  · exact clear_of_directives hdirectives hq

theorem clear_of_argument {a : Argument} (h : Leveled.Clear a.leveled)
    (hq : q ∈ (Node.argument a).parts) : q.Clear := by
  obtain ⟨name, value, span⟩ := a
  rw [Argument.leveled, clear_cons, clear_cons] at h
  simp only [Node.parts, List.mem_cons, List.not_mem_nil, or_false] at hq
  cases value with
  | literal v =>
    rcases hq with rfl | rfl
    · trivial
    · exact ⟨0, by decide, h.2.2⟩
  | reference t => rcases hq with rfl | rfl <;> trivial

theorem clear_of_value {v : Value} (h : Leveled.Clear (v.leveled outer))
    (hq : q ∈ Node.valueParts v) : q.Clear := by
  cases v with
  | list items span =>
    rw [Value.leveled, clear_bracketed, Value.leveledAll_eq, clear_flatMap] at h
    obtain ⟨v, hv, rfl⟩ := List.mem_map.mp hq
    exact ⟨outer + 1, h.1, h.2 v hv⟩
  | scalar token =>
    obtain rfl := List.mem_singleton.mp hq
    trivial
  | boolean | null => cases hq

theorem clear_of_selection {s : Selection} (h : Leveled.Clear (s.leveled outer))
    (hq : q ∈ Node.selectionParts s) : q.Clear := by
  cases s with
  | field aliasName name arguments directives selections span =>
    rw [Selection.leveled] at h
    simp only [clear_append, clear_cons, clear_parenthesised, clear_flatMap] at h
    obtain ⟨-, -, harguments, hdirectives, hset⟩ := h
    simp only [Node.selectionParts, List.mem_cons, List.mem_append] at hq
    rcases hq with hq | rfl | (hq | hq) | hq
    · exact clear_of_tokens hq
    · trivial
    · exact clear_of_arguments harguments hq
    · exact clear_of_directives hdirectives hq
    · cases selections with
      | nil => cases hq
      | cons => exact clear_of_selections (clear_braced.mp hset).2 hq
  | fragmentSpread name directives span =>
    rw [Selection.leveled, clear_cons, clear_cons, clear_flatMap] at h
    rcases List.mem_cons.mp hq with rfl | hq
    · trivial
    · exact clear_of_directives h.2.2 hq
  | inlineFragment typeCondition directives selections span =>
    rw [Selection.leveled] at h
    simp only [clear_append, clear_cons, clear_braced, clear_flatMap] at h
    obtain ⟨-, -, hdirectives, -, hset⟩ := h
    simp only [Node.selectionParts, List.mem_append] at hq
    rcases hq with (hq | hq) | hq
    · exact clear_of_tokens hq
    · exact clear_of_directives hdirectives hq
    · exact clear_of_selections hset hq

/-- Where the terminals of a part open no level too many, those of its parts open none. -/
theorem Clear.part {p : Part} (h : p.Clear) (q : Part) (hq : q ∈ p.parts) : q.Clear := by
  cases p with
  | token => cases hq
  | sigilName => cases hq
  | node n =>
    cases n with
    | operation o => exact clear_of_operation h hq
    | fragment f => exact clear_of_fragment h hq
    | variableDefinition v => exact clear_of_variableDefinition h hq
    | typeRef t =>
      obtain rfl := List.mem_singleton.mp hq
      trivial
    | directive d =>
      rw [Clear, Directive.leveled, clear_cons, clear_parenthesised, clear_flatMap] at h
      rcases List.mem_cons.mp hq with rfl | hq
      · trivial
      · exact clear_of_arguments h.2 hq
    | argument a => exact clear_of_argument h hq
    | reference t =>
      obtain rfl := List.mem_singleton.mp hq
      trivial
    | value v =>
      obtain ⟨outer, -, h⟩ := h
      exact clear_of_value h hq
    | selection s =>
      obtain ⟨outer, h⟩ := h
      exact clear_of_selection h hq

theorem setDepth_le_of_clear (h : Leveled.Clear (Definition.leveledBody selections)) :
    Selection.setDepth selections ≤ 64 := by
  rw [Definition.leveledBody, clear_braced] at h
  have := Selection.setDepth_of_clear selections h.1 h.2
  omega

/-- Where the terminals of a node open no level too many, it nests no deeper than it may. -/
theorem Clear.nests {n : Node} (h : (node n).Clear) : n.Nests := by
  cases n with
  | operation o =>
    obtain ⟨_ | header, selections, span⟩ := o
    · exact setDepth_le_of_clear h
    · simp only [Clear, Definition.leveled, clear_append, clear_cons] at h
      exact setDepth_le_of_clear h.2.2.2.2
  | fragment f =>
    simp only [Clear, Definition.leveled, clear_append, clear_cons] at h
    exact setDepth_le_of_clear h.2.2.2.2.2
  | value v =>
    obtain ⟨outer, houter, h⟩ := h
    have := v.listDepth_of_clear houter h
    exact Nat.le_trans (Nat.le_add_right _ _) this
  | typeRef t => exact clear_openings.mp (clear_append.mp h).1
  | _ => trivial

end Part

/-- Where no terminal of a document opens a level too many, the document nests no deeper than it
may. -/
theorem Document.nests_of_leveled {d : Document} (h : Leveled.Clear d.leveled) : d.Nests := by
  intro p hp n hn
  obtain ⟨x, hx, rfl⟩ := List.mem_map.mp hp
  have hclear : (Part.node x.node).Clear := by
    rw [leveled, clear_flatMap] at h
    cases x <;> exact h _ hx
  exact (Part.contains_induction (fun _ => Part.Clear.part) hn hclear).nests

end GraphQLSyntax
