import GraphQLSyntax.Proofs.Print.Spelled
import GraphQLSyntax.Proofs.Tree.Nesting

/-!
# Trees of the right shape

Trees in which some lists or selection sets may nest too deep. Their terminals stand apart
nevertheless.

* `Part.ShapedWithin`, `Document.Shaped`: everything in a part, or a document, has the right shape.
* `Document.wellFormed_iff`: a document is well formed where it has the right shape and nests no
  deeper than it may.
* `Document.standsApart`: the terminals of a document of the right shape stand apart.
-/

namespace GraphQLSyntax

/-- What the grammar asks of a part however deep it nests, and of the text of a token. -/
def Part.Shaped : Part → Prop
  | node n => n.Shaped
  | p => p.WellFormed

/-- Everything in a part has the right shape. -/
def Part.ShapedWithin (p : Part) : Prop := ∀ q, p.Contains q → q.Shaped

/-- Everything in a document has the right shape. -/
def Document.Shaped (d : Document) : Prop := ∀ p ∈ d.parts, p.ShapedWithin

namespace Part

variable {p q : Part} {n : Node} {t : Token} {sigil : Char}

theorem ShapedWithin.self (h : p.ShapedWithin) : p.Shaped := h p (.self p)

theorem ShapedWithin.part (h : p.ShapedWithin) (hq : q ∈ p.parts) : q.ShapedWithin :=
  fun r hr => h r (.part hq hr)

theorem shapedWithin_iff :
    p.ShapedWithin ↔ p.Shaped ∧ ∀ q ∈ p.parts, q.ShapedWithin := by
  constructor
  · intro h
    exact ⟨h.self, fun q hq => h.part hq⟩
  · rintro ⟨hself, hparts⟩ r (_ | ⟨hq, hr⟩)
    · exact hself
    · exact hparts _ hq r hr

@[simp] theorem shapedWithin_node :
    (node n).ShapedWithin ↔ n.Shaped ∧ ∀ q ∈ n.parts, q.ShapedWithin := shapedWithin_iff

@[simp] theorem shapedWithin_token : (token t).ShapedWithin ↔ t.IsWhole := by
  rw [shapedWithin_iff]
  simp [parts, Shaped, WellFormed]

@[simp] theorem shapedWithin_sigilName :
    (sigilName sigil t).ShapedWithin ↔ Lexical.IsName t.text.toList := by
  rw [shapedWithin_iff]
  simp [parts, Shaped, WellFormed]

theorem wellFormed_iff : p.WellFormed ↔ p.Shaped ∧ ∀ n, p = node n → n.Nests := by
  cases p with
  | node n => simp [WellFormed, Shaped, Node.wellFormed_iff]
  | _ => simp [Shaped]

end Part

/-- A document is well formed where it has the right shape and nests no deeper than it may. -/
theorem Document.wellFormed_iff {d : Document} : d.WellFormed ↔ d.Shaped ∧ d.Nests := by
  constructor
  · intro h
    refine ⟨fun p hp q hq => (Part.wellFormed_iff.mp (h p hp q hq)).1, fun p hp n hn => ?_⟩
    exact (Part.wellFormed_iff.mp (h p hp _ hn)).2 n rfl
  · rintro ⟨hshaped, hnests⟩ p hp q hq
    refine Part.wellFormed_iff.mpr ⟨hshaped p hp q hq, ?_⟩
    rintro n rfl
    exact hnests p hp n hq

/-! ## Terminals that stand apart -/

namespace Terminal

/-- All of these terminals are read as what they are in front of a space, and at the end. -/
def AllApart (ts : List Terminal) : Prop := ∀ t ∈ ts, t.StandsApart

variable {t : Terminal} {ts ts' : List Terminal} {α : Type}

@[simp] theorem allApart_nil : AllApart [] := fun _ h => nomatch h

@[simp] theorem allApart_cons : AllApart (t :: ts) ↔ t.StandsApart ∧ AllApart ts :=
  List.forall_mem_cons

@[simp] theorem allApart_append : AllApart (ts ++ ts') ↔ AllApart ts ∧ AllApart ts' :=
  List.forall_mem_append

theorem allApart_flatMap {as : List α} {f : α → List Terminal} (h : ∀ a ∈ as, AllApart (f a)) :
    AllApart (as.flatMap f) := by
  intro t ht
  obtain ⟨a, ha, ht⟩ := List.mem_flatMap.mp ht
  exact h a ha t ht

theorem AllApart.braced (h : AllApart ts) : AllApart (braced ts) :=
  allApart_cons.mpr ⟨standsApart_single (c := '{') rfl,
    allApart_append.mpr ⟨h, allApart_cons.mpr ⟨standsApart_single (c := '}') rfl, allApart_nil⟩⟩⟩

theorem AllApart.parenthesised (h : AllApart ts) : AllApart (parenthesised ts) := by
  unfold Terminal.parenthesised
  split
  · exact allApart_nil
  · exact allApart_cons.mpr ⟨standsApart_single (c := '(') rfl,
      allApart_append.mpr ⟨h, allApart_cons.mpr ⟨standsApart_single (c := ')') rfl, allApart_nil⟩⟩⟩

end Terminal

open Terminal

theorem Part.ShapedWithin.standsApart {t : Token} (h : (Part.token t).ShapedWithin) :
    t.terminal.StandsApart := (shapedWithin_token.mp h).standsApart

theorem TypeRef.allApart {t : TypeRef} (h : (Part.node (.typeRef t)).ShapedWithin) :
    AllApart t.terminals := by
  have hname := (h.part (q := .token t.name) (by simp [Part.parts, Node.parts])).standsApart
  refine allApart_append.mpr ⟨?_, allApart_cons.mpr ⟨hname, ?_⟩⟩
  · exact fun t ht rest _ => stands_openings t ht rest
  · exact fun u hu rest _ => stands_marks t.wrapping.closed_closings.mem u hu rest

mutual

theorem Value.allApart (v : Value) (h : (Part.node (.value v)).ShapedWithin) :
    AllApart v.terminals := by
  match v with
  | .boolean true => exact allApart_cons.mpr ⟨standsApart_keyword (by decide), allApart_nil⟩
  | .boolean false => exact allApart_cons.mpr ⟨standsApart_keyword (by decide), allApart_nil⟩
  | .null => exact allApart_cons.mpr ⟨standsApart_keyword (by decide), allApart_nil⟩
  | .scalar token =>
    have htoken := (h.part (q := .token token)
      (by simp [Part.parts, Node.parts, Node.valueParts])).standsApart
    exact allApart_cons.mpr ⟨htoken, allApart_nil⟩
  | .list items span =>
    have hitems := Value.allApartAll items fun v hv => h.part
      (by simp [Part.parts, Node.parts, Node.valueParts, hv])
    exact allApart_cons.mpr ⟨standsApart_single (c := '[') rfl, allApart_append.mpr ⟨hitems,
      allApart_cons.mpr ⟨standsApart_single (c := ']') rfl, allApart_nil⟩⟩⟩

theorem Value.allApartAll (items : List Value)
    (h : ∀ v ∈ items, (Part.node (.value v)).ShapedWithin) :
    AllApart (Value.terminalsAll items) := by
  match items with
  | [] => exact allApart_nil
  | v :: rest =>
    exact allApart_append.mpr ⟨Value.allApart v (h v (by simp)),
      Value.allApartAll rest fun w hw => h w (by simp [hw])⟩

end

theorem Argument.allApart {a : Argument} (h : (Part.node (.argument a)).ShapedWithin) :
    AllApart a.terminals := by
  obtain ⟨name, value, span⟩ := a
  have hname := (h.part (q := .token name) (by simp [Part.parts, Node.parts])).standsApart
  refine allApart_cons.mpr ⟨hname, allApart_cons.mpr ⟨standsApart_single (c := ':') rfl, ?_⟩⟩
  cases value with
  | literal v => exact v.allApart (h.part (by simp [Part.parts, Node.parts]))
  | reference t =>
    have ht := h.part (q := .node (.reference t)) (by simp [Part.parts, Node.parts])
    have htext := ht.part (q := .sigilName '$' t) (by simp [Part.parts, Node.parts])
    rw [Part.shapedWithin_sigilName] at htext
    exact allApart_cons.mpr ⟨standsApart_sigilName (.inl rfl) htext, allApart_nil⟩

theorem Directive.allApart {d : Directive} (h : (Part.node (.directive d)).ShapedWithin) :
    AllApart d.terminals := by
  have hname := h.part (q := .sigilName '@' d.name) (by simp [Part.parts, Node.parts])
  rw [Part.shapedWithin_sigilName] at hname
  refine allApart_cons.mpr ⟨standsApart_sigilName (.inr rfl) hname, ?_⟩
  exact (allApart_flatMap fun a ha =>
    Argument.allApart (h.part (by simp [Part.parts, Node.parts, ha]))).parenthesised

theorem Directive.allApartAll (directives : List Directive)
    (h : ∀ d ∈ directives, (Part.node (.directive d)).ShapedWithin) :
    AllApart (directives.flatMap Directive.terminals) :=
  allApart_flatMap fun d hd => Directive.allApart (h d hd)

mutual

theorem Selection.allApart (s : Selection) (h : (Part.node (.selection s)).ShapedWithin) :
    AllApart s.terminals := by
  have hparts (q : Part) (hq : q ∈ Node.selectionParts s) : q.ShapedWithin := h.part hq
  match s with
  | .field aliasName name arguments directives selections span =>
    simp only [Node.selectionParts, List.mem_append, List.mem_cons, List.mem_map] at hparts
    have hname := (hparts (.token name) (by simp)).standsApart
    have harguments : AllApart (arguments.flatMap Argument.terminals) :=
      allApart_flatMap fun a ha => Argument.allApart (hparts _ (by simp [ha]))
    have hdirectives := Directive.allApartAll directives
      fun d hd => hparts _ (by simp [hd])
    have hselections := Selection.allApartAll selections fun s hs => hparts _ (by simp [hs])
    refine allApart_append.mpr ⟨?_, allApart_cons.mpr ⟨hname, allApart_append.mpr
      ⟨harguments.parenthesised, allApart_append.mpr ⟨hdirectives, ?_⟩⟩⟩⟩
    · refine allApart_flatMap fun t ht => allApart_cons.mpr ⟨?_, ?_⟩
      · exact (hparts (.token t) (by simp [Option.mem_toList.mp ht])).standsApart
      · exact allApart_cons.mpr ⟨standsApart_single (c := ':') rfl, allApart_nil⟩
    · split
      · exact allApart_nil
      · exact hselections.braced
  | .fragmentSpread name directives span =>
    simp only [Node.selectionParts, List.mem_cons, List.mem_map] at hparts
    have hname := (hparts (.token name) (by simp)).standsApart
    have hdirectives := Directive.allApartAll directives
      fun d hd => hparts _ (by simp [hd])
    exact allApart_cons.mpr ⟨standsApart_spread, allApart_cons.mpr ⟨hname, hdirectives⟩⟩
  | .inlineFragment typeCondition directives selections span =>
    simp only [Node.selectionParts, List.mem_append, List.mem_map] at hparts
    have hdirectives := Directive.allApartAll directives
      fun d hd => hparts _ (by simp [hd])
    have hselections := Selection.allApartAll selections fun s hs => hparts _ (by simp [hs])
    refine allApart_cons.mpr ⟨standsApart_spread, allApart_append.mpr ⟨?_,
      allApart_append.mpr ⟨hdirectives, hselections.braced⟩⟩⟩
    refine allApart_flatMap fun t ht => allApart_cons.mpr ⟨standsApart_keyword (by decide), ?_⟩
    have ht := (hparts (.token t) (by simp [Option.mem_toList.mp ht])).standsApart
    exact allApart_cons.mpr ⟨ht, allApart_nil⟩

theorem Selection.allApartAll (selections : List Selection)
    (h : ∀ s ∈ selections, (Part.node (.selection s)).ShapedWithin) :
    AllApart (Selection.terminalsAll selections) := by
  match selections with
  | [] => exact allApart_nil
  | s :: rest =>
    exact allApart_append.mpr ⟨Selection.allApart s (h s (by simp)),
      Selection.allApartAll rest fun t ht => h t (by simp [ht])⟩

end

theorem VariableDefinition.allApart {v : VariableDefinition}
    (h : (Part.node (.variableDefinition v)).ShapedWithin) : AllApart v.terminals := by
  have hname := h.part (q := .sigilName '$' v.name) (by simp [Part.parts, Node.parts])
  have htype := TypeRef.allApart (t := v.type) (h.part (by simp [Part.parts, Node.parts]))
  have hdirectives := Directive.allApartAll v.directives
    fun d hd => h.part (by simp [Part.parts, Node.parts, hd])
  rw [Part.shapedWithin_sigilName] at hname
  refine allApart_cons.mpr ⟨standsApart_sigilName (.inl rfl) hname, allApart_cons.mpr
    ⟨standsApart_single (c := ':') rfl, allApart_append.mpr ⟨htype, allApart_append.mpr
      ⟨allApart_flatMap fun x hx => ?_, hdirectives⟩⟩⟩⟩
  refine allApart_cons.mpr ⟨standsApart_single (c := '=') rfl, x.allApart (h.part ?_)⟩
  simp [Part.parts, Node.parts, Option.mem_toList.mp hx]

theorem Definition.allApart {x : Definition} (h : (Part.node x.node).ShapedWithin) :
    AllApart x.terminals := by
  have hparts (q : Part) (hq : q ∈ x.node.parts) : q.ShapedWithin := h.part hq
  cases x with
  | operation o =>
    obtain ⟨header, selections, span⟩ := o
    have hselections := Selection.allApartAll selections
      fun s hs => hparts _ (by simp [node, Node.parts, hs])
    cases header with
    | none => exact hselections.braced
    | some header =>
      simp only [node, Node.parts, Operation.keyword, Operation.name,
        Operation.variableDefinitions, Operation.directives, Option.map_some, Option.toList_some,
        Option.bind_some, List.mem_append, List.mem_map] at hparts
      have hkeyword := (hparts (.token header.keyword) (by simp)).standsApart
      have hvariables :
          AllApart (header.variableDefinitions.flatMap VariableDefinition.terminals) :=
        allApart_flatMap fun v hv => VariableDefinition.allApart (hparts _ (by simp [hv]))
      have hdirectives := Directive.allApartAll header.directives
        fun d hd => hparts _ (by simp [hd])
      refine allApart_cons.mpr ⟨hkeyword, allApart_append.mpr ⟨?_, allApart_append.mpr
        ⟨hvariables.parenthesised, allApart_append.mpr ⟨hdirectives, hselections.braced⟩⟩⟩⟩
      rw [AllApart, List.forall_mem_map]
      exact fun t ht => (hparts (.token t) (by simp [Option.mem_toList.mp ht])).standsApart
  | fragment f =>
    simp only [node, Node.parts, List.mem_cons, List.mem_append, List.mem_map] at hparts
    have hname := (hparts (.token f.name) (by simp)).standsApart
    have hcondition := (hparts (.token f.typeCondition) (by simp)).standsApart
    have hdirectives := Directive.allApartAll f.directives
      fun d hd => hparts _ (by simp [hd])
    have hselections := Selection.allApartAll f.selections fun s hs => hparts _ (by simp [hs])
    simp only [terminals, allApart_cons, allApart_append]
    exact ⟨standsApart_keyword (by decide), hname, standsApart_keyword (by decide), hcondition,
      hdirectives, hselections.braced⟩

/-- The terminals of a document of the right shape stand apart. -/
theorem Document.standsApart {d : Document} (h : d.Shaped) : AllApart d.terminals :=
  allApart_flatMap fun x hx => Definition.allApart (h (.node x.node) (List.mem_map_of_mem hx))

end GraphQLSyntax
