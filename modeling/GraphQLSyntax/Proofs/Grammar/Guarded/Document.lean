import GraphQLSyntax.Proofs.Grammar.Complete.Document
import GraphQLSyntax.Proofs.Grammar.Guarded.Selection

/-!
# Documents are guarded

* `Reader.guards_variableDefinitions`: the variables of an operation.
* `Reader.guards_definition`: a definition is guarded, in front of another or at the end.
* `Document.parse_of_walk`: a text in which the terminals of a document stand is refused at the
  first of them that opens a level too many.
-/

namespace GraphQLSyntax

open Leveled

variable {k k' : Cursor}

/-- The types of the variables of a definition have few enough dimensions to be counted. -/
def Definition.Countable (d : Definition) : Prop :=
  ∀ v, .node (.variableDefinition v) ∈ d.node.parts → v.type.dimensions < UInt32.size

namespace Reader

/-! ## Variables -/

/-- The default of a variable is guarded where it stands. -/
theorem guards_defaultValue {default : Option Value}
    (h : ∀ x ∈ default, (Part.node (.value x)).ShapedWithin)
    (hlaid : LaidOut (default.toList.flatMap fun x => plain (.lexeme .equals "=") :: x.leveled 0)
      k k') (hnext : k'.ahead ∉ [.unknown, .equals]) : k.ahead ∈ [k'.ahead, .equals] ∧
      defaultValue.Guards
        (default.toList.flatMap fun x => plain (.lexeme .equals "=") :: x.leveled 0) k := by
  cases default with
  | none =>
    obtain rfl := LaidOut.nil hlaid
    exact ⟨by simp, Guards.whenAt_absent (by grind)⟩
  | some x =>
    rw [Option.toList_some, List.flatMap_singleton] at hlaid ⊢
    have hk := hlaid.ahead_of (l := .equals) rfl
    obtain ⟨hequals, h₁⟩ := hlaid.cons
    have hk₁ := h₁.ahead_mem (starts_value (h x rfl))
    refine ⟨by simp [hk], Guards.whenAt hk (Guards.step rfl (gives_expect hequals ?_) ?_)⟩
    · exact ne_of_mem_of_not_mem hk₁ (by decide)
    · intro _ _
      exact (guards_value (h x rfl) h₁ (by grind)).map _

theorem starts_typeRef {t : TypeRef} (h : (Part.node (.typeRef t)).ShapedWithin) :
    Starts [.name, .squareOpen] t.leveled := by
  have hname : t.name.IsPlainName := h.self
  unfold TypeRef.leveled
  generalize t.dimensions = dimensions
  cases dimensions with
  | zero => exact starts_cons (by simp [ahead_plainName hname])
  | succ brackets => exact starts_cons (by simp [Terminal.ahead])

/-- The definition of a variable is guarded where it stands. -/
theorem guards_variableDefinition {v : VariableDefinition}
    (h : (Part.node (.variableDefinition v)).ShapedWithin)
    (hsize : v.type.dimensions < UInt32.size) (hlaid : LaidOut v.leveled k k')
    (hnext : k'.ahead ∉ [.unknown, .parenOpen, .atSign, .equals, .squareClose]) :
    variableDefinition.Guards v.leveled k := by
  have htype : (Part.node (.typeRef v.type)).ShapedWithin :=
    h.part (by simp [Part.parts, Node.parts])
  have hdefault (x : Value) (hx : x ∈ v.default) : (Part.node (.value x)).ShapedWithin :=
    h.part (by simp [Part.parts, Node.parts, Option.mem_def.mp hx])
  have hdirectives (d : Directive) (hd : d ∈ v.directives) :
      (Part.node (.directive d)).ShapedWithin := h.part (by simp [Part.parts, Node.parts, hd])
  obtain ⟨hsigil, h₁⟩ := hlaid.cons
  have hk₁ := h₁.ahead_of (l := .colon) rfl
  obtain ⟨hcolon, h₂⟩ := h₁.cons
  obtain ⟨k₃, hlaid₃, h₃⟩ := h₂.append
  obtain ⟨k₄, hlaid₄, hlaid₅⟩ := h₃.append
  have hk₂ := hlaid₃.ahead_mem (starts_typeRef htype)
  have hk₄ := hlaid₅.ahead_flatMap fun d _ => starts_directive d
  obtain ⟨hk₃, hguards⟩ := guards_defaultValue hdefault hlaid₄ (by grind)
  refine Guards.spanned (Guards.step rfl (gives_sigil rfl (.inl rfl) hsigil ?_) fun _ _ => ?_)
  · exact hk₁.trans_ne (by decide)
  refine Guards.step rfl (gives_expect hcolon ?_) fun _ _ => ?_
  · exact ne_of_mem_of_not_mem hk₂ (by decide)
  refine (guards_typeRef htype hsize hlaid₃ (by grind)).bind hlaid₃ fun _ _ => ?_
  refine hguards.bind hlaid₄ fun _ _ => ?_
  exact (guards_directives hdirectives hlaid₅ (by grind)).map _

/-- The variables of an operation are guarded where they stand, in parentheses. -/
theorem guards_variableDefinitions {definitions : List VariableDefinition}
    (h : ∀ v ∈ definitions, (Part.node (.variableDefinition v)).ShapedWithin)
    (hsize : ∀ v ∈ definitions, v.type.dimensions < UInt32.size)
    (hlaid : LaidOut (Leveled.parenthesised (definitions.flatMap VariableDefinition.leveled)) k k')
    (hnext : k'.ahead ∉ [.unknown, .parenOpen]) :
    variableDefinitions.Guards
      (Leveled.parenthesised (definitions.flatMap VariableDefinition.leveled)) k := by
  refine Production.guards_parenthesised (S := [.dollar]) hlaid hnext
    (fun v _ => starts_cons (List.mem_singleton.mpr rfl)) (by decide) fun v hv k₁ k₂ hlaid hk₂ => ?_
  exact guards_variableDefinition (h v hv) (hsize v hv) hlaid (by grind)

/-! ## Operations and fragments -/

/-- The selections of a definition are guarded where they stand. -/
theorem guards_ownSelections {selections : List Selection}
    (h : ∀ s ∈ selections, (Part.node (.selection s)).ShapedWithin)
    (hlaid : LaidOut (Definition.leveledBody selections) k k') (hnext : k'.ahead ≠ .unknown) :
    ownSelections.Guards (Definition.leveledBody selections) k :=
  guards_selectionSet rfl h (by simp) hlaid hnext

/-- What follows the name of a definition is guarded: directives and selections. -/
theorem guards_definitionRest {directives : List Directive} {selections : List Selection}
    (hdirectives : ∀ d ∈ directives, (Part.node (.directive d)).ShapedWithin)
    (hselections : ∀ s ∈ selections, (Part.node (.selection s)).ShapedWithin)
    (hlaid : LaidOut (directives.flatMap Directive.leveled ++ Definition.leveledBody selections)
      k k') (hnext : k'.ahead ≠ .unknown) : k.ahead ∈ [.curlyOpen, .atSign] ∧
      ∀ {α : Type} (build : List Directive → List Selection → α), Guards (do
        let ds ← Reader.directives
        let ss ← whenAt .curlyOpen [] ownSelections
        return build ds ss)
        (directives.flatMap Directive.leveled ++ Definition.leveledBody selections) k := by
  obtain ⟨k₁, hlaid₁, hbody⟩ := hlaid.append
  have hk₁ := LaidOut.ahead_of (l := .curlyOpen) hbody rfl
  have hk := hlaid₁.ahead_flatMap fun d _ => starts_directive d
  rw [hk₁] at hk
  refine ⟨hk, fun build => ?_⟩
  refine (guards_directives hdirectives hlaid₁ (by grind)).bind hlaid₁ fun ds _ => ?_
  exact (Guards.whenAt hk₁ (guards_ownSelections hselections hbody hnext)).map _

/-- The name that an operation may have is read where it stands. -/
theorem guards_operationName {name : Option Token} (h : ∀ t ∈ name, t.IsPlainName)
    (hlaid : LaidOut (name.toList.map fun t => plain t.terminal) k k')
    (hnext : k'.ahead ∉ [.unknown, .name]) : k.ahead ∈ [k'.ahead, .name] ∧ Guards (do
      whenAt .name none do
        let token ← take
        return some token) (name.toList.map fun t => plain t.terminal) k := by
  cases name with
  | none =>
    obtain rfl := LaidOut.nil hlaid
    exact ⟨by simp, Guards.whenAt_absent (by grind)⟩
  | some t =>
    have ht := h t rfl
    have hk := LaidOut.ahead_of hlaid (ahead_plainName ht)
    obtain ⟨hat, rfl⟩ := LaidOut.single hlaid
    refine ⟨by simp [hk], Guards.whenAt hk (Guards.map ?_ _)⟩
    rw [terminal_plain, ht.terminal_eq] at hat hnext
    have hgives := gives_take hat (by grind)
    refine hgives.guards ?_
    rw [← ht.terminal_eq]
    rfl

/-- An operation is guarded where it stands, from its keyword on. -/
theorem guards_operation {header : OperationHeader} {selections : List Selection} {span : Span}
    (h : (Part.node (.operation ⟨some header, selections, span⟩)).ShapedWithin)
    (hsize : ∀ v ∈ header.variableDefinitions, v.type.dimensions < UInt32.size)
    (hlaid : LaidOut (Definition.operation ⟨some header, selections, span⟩).leveled k k')
    (hnext : k'.ahead ≠ .unknown) : k.keyword = header.keyword.lexeme ∧
      (operation header.kind header.keyword.lexeme).Guards
        (Definition.operation ⟨some header, selections, span⟩).leveled k := by
  have hheader : header.WellFormed := h.self header rfl
  have hparts {q : Part} (hq : q ∈ (Node.operation ⟨some header, selections, span⟩).parts) :
      q.ShapedWithin := h.part hq
  simp only [Node.parts, Operation.variableDefinitions, Operation.directives, List.mem_append,
    List.mem_map] at hparts
  rw [Definition.leveled] at hlaid ⊢
  obtain ⟨hat, h₁⟩ := hlaid.cons
  obtain ⟨k₂, hlaid₂, h₂⟩ := h₁.append
  obtain ⟨k₃, hlaid₃, h₃⟩ := h₂.append
  obtain ⟨hk₃, hrest⟩ := guards_definitionRest (fun d hd => hparts (by simp [hd]))
    (fun s hs => hparts (by simp [hs])) h₃ hnext
  have hk₂ := hlaid₃.ahead_parenthesised
  obtain ⟨hk₁, hname⟩ := guards_operationName hheader.2.2.2 hlaid₂ (by grind)
  have hvariables := guards_variableDefinitions (fun v hv => hparts (by simp [hv])) hsize hlaid₃
    (by grind)
  have hkeyword : (Terminal.lexeme .name header.keyword.text).LaidAt k := hheader.terminal_eq ▸ hat
  refine ⟨hkeyword.keyword_eq.trans (classify_keyword hheader), Guards.spanned ?_⟩
  have htake : take.Gives k (k.behind (plain header.keyword.terminal).terminal) fun _ => True := by
    rw [terminal_plain, hheader.terminal_eq] at hk₁ ⊢
    exact (gives_take hkeyword (by grind)).mono fun _ _ => trivial
  refine Guards.step rfl htake fun token _ => ?_
  refine hname.bind hlaid₂ fun name _ => ?_
  exact hvariables.bind hlaid₃ fun vs _ => hrest _

/-- The name of a fragment is read where its terminal stands. -/
theorem gives_plainFragmentName {t : Token} (ht : t.IsPlainName) (hreserved : t.text ≠ "on")
    (h : t.terminal.LaidAt k) (hnext : (k.behind t.terminal).ahead ≠ .unknown) :
    fragmentName.Gives k (k.behind t.terminal) fun _ => True := by
  apply Gives.keyword_bind
  rw [if_neg (keyword_ne_on (ht.terminal_eq ▸ h) hreserved)]
  exact gives_plainName ht h hnext

/-- A fragment is guarded where it stands, from its keyword on. -/
theorem guards_fragment {f : Fragment} (h : (Part.node (.fragment f)).ShapedWithin)
    (hlaid : LaidOut (Definition.fragment f).leveled k k') (hnext : k'.ahead ≠ .unknown) :
    k.keyword = .fragment ∧ fragment.Guards (Definition.fragment f).leveled k := by
  obtain ⟨hname, hreserved, hcondition⟩ :
    f.name.IsPlainName ∧ f.name.text ≠ "on" ∧ f.typeCondition.IsPlainName := h.self
  rw [Definition.leveled] at hlaid ⊢
  obtain ⟨hkeyword, h₁⟩ := hlaid.cons
  have hk₁ := h₁.ahead_of (ahead_plainName hname)
  obtain ⟨hat, h₂⟩ := h₁.cons
  have hk₂ := h₂.ahead_of (l := .name) rfl
  obtain ⟨hon, h₃⟩ := h₂.cons
  have hk₃ := h₃.ahead_of (ahead_plainName hcondition)
  obtain ⟨hat', h₄⟩ := h₃.cons
  obtain ⟨hk₄, hrest⟩ := guards_definitionRest
    (fun d hd => h.part (by simp [Part.parts, Node.parts, hd]))
    (fun s hs => h.part (by simp [Part.parts, Node.parts, hs])) h₄ hnext
  refine ⟨hkeyword.keyword_eq.trans (by decide), Guards.spanned ?_⟩
  refine Guards.step rfl (gives_take hkeyword (hk₁.trans_ne (by decide))) fun _ _ => ?_
  refine Guards.step rfl (gives_plainFragmentName hname hreserved hat (hk₂.trans_ne (by decide)))
    fun _ _ => ?_
  refine Guards.step rfl (gives_onKeyword hon (hk₃.trans_ne (by decide))) fun _ _ => ?_
  exact Guards.step rfl (gives_plainName hcondition hat' (by grind)) fun _ _ => hrest _

/-! ## Definitions -/

theorem starts_definition {d : Definition} (h : (Part.node d.node).ShapedWithin) :
    Starts [.name, .curlyOpen] d.leveled := by
  rcases d with ⟨_ | header, selections, span⟩ | f
  · exact starts_cons (by simp [Terminal.ahead])
  · have hheader : header.WellFormed := h.self header rfl
    exact starts_cons (by simp [hheader.terminal_eq, Terminal.ahead])
  · exact starts_cons (by decide)

/-- A definition is guarded where it stands. -/
theorem guards_definition {d : Definition} (h : (Part.node d.node).ShapedWithin)
    (hsize : d.Countable) (hlaid : LaidOut d.leveled k k') (hnext : k'.ahead ≠ .unknown) :
    definition.Guards d.leveled k := by
  apply Guards.keyword_bind
  rcases d with ⟨_ | header, selections, span⟩ | f
  · have hahead := LaidOut.ahead_of (l := .curlyOpen) hlaid rfl
    rw [Cursor.keyword_eq_ahead (by rw [hahead]; decide), hahead]
    have hselections (s : Selection) (hs : s ∈ selections) :
        (Part.node (.selection s)).ShapedWithin :=
      h.part (by simp [Part.parts, Definition.node, Node.parts, hs])
    exact (Guards.spanned ((guards_ownSelections hselections hlaid hnext).map _)).map _
  · have hheader : header.WellFormed := h.self header rfl
    have hvariables (v : VariableDefinition) (hv : v ∈ header.variableDefinitions) :
        v.type.dimensions < UInt32.size :=
      hsize v (by simp [Definition.node, Node.parts, Operation.variableDefinitions, hv])
    obtain ⟨hkeyword, hguards⟩ := guards_operation h hvariables hlaid hnext
    have hkind := hheader.1
    rw [hkeyword]
    unfold OperationKind.ofLexeme? at hkind
    split at hkind
    case h_4 => cases hkind
    all_goals
      rename_i heq
      rw [heq, ← Option.some.inj hkind] at hguards
      rw [heq]
      exact hguards.map _
  · obtain ⟨hkeyword, hguards⟩ := guards_fragment h hlaid hnext
    rw [hkeyword]
    exact hguards.map _

/-- Definitions in a row are guarded up to the end of the text. -/
theorem guards_definitions {ds : List Definition}
    (h : ∀ d ∈ ds, (Part.node d.node).ShapedWithin ∧ d.Countable)
    (hlaid : LaidOut (ds.flatMap Definition.leveled) k k') (hend : k'.ahead = .eof) :
    definitions.Guards (ds.flatMap Definition.leveled) k := by
  refine Production.guards_repeatWhile hlaid (fun d hd => starts_definition (h d hd).1) ?_ ?_ ?_
  · intro k hk
    have hne : k.ahead ≠ .eof := ne_of_mem_of_not_mem hk (by decide)
    exact congrArg Except.ok (decide_eq_true hne)
  · exact congrArg Except.ok (decide_eq_false fun hne => hne hend)
  · intro d hd k₁ k₂ hlaid hk₂
    rw [hend] at hk₂
    exact guards_definition (h d hd).1 (h d hd).2 hlaid (ne_of_mem_of_not_mem hk₂ (by decide))

end Reader

/-- A text in which the terminals of a document stand, up to its end, is refused at the first of
them that opens a level too many. -/
theorem Document.parse_of_walk {d : Document} {text : String} {e : SyntaxError} (h : d.Shaped)
    (hsize : ∀ x ∈ d.definitions, x.Countable) (hlaid : LaidOut d.leveled (.ofText text) k')
    (hend : k'.ahead = .eof) (hwalk : walk d.leveled (.ofText text) = .error e) :
    Document.parse text = .error e := by
  have hshaped (x : Definition) (hx : x ∈ d.definitions) : (Part.node x.node).ShapedWithin :=
    h _ (List.mem_map_of_mem hx)
  have hahead := hlaid.ahead_flatMap fun x hx => Reader.starts_definition (hshaped x hx)
  rw [hend] at hahead
  have hguards := Reader.guards_definitions (fun x hx => ⟨hshaped x hx, hsize x hx⟩) hlaid hend
  rw [Reader.Guards, show walk (d.definitions.flatMap Definition.leveled) (.ofText text) =
    .error e from hwalk] at hguards
  rw [parse_eq_after, Reader.after_of_known (ne_of_mem_of_not_mem hahead (by decide))]
  cases hread : Reader.definitions (.ofCursor (.ofText text)) with
  | error e' =>
    rw [hread] at hguards
    cases hguards
    rfl
  | ok q =>
    rw [hread] at hguards
    cases hguards

end GraphQLSyntax
