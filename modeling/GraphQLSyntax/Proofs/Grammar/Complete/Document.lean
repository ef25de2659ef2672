import GraphQLSyntax.Proofs.Grammar.Chain
import GraphQLSyntax.Proofs.Grammar.Complete.Selection
import GraphQLSyntax.Proofs.Grammar.Complete.TypeRef

/-!
# Documents that are written are read

* `Reader.takes_definition`: a definition is read where it stands, if it ends in front of what
  follows.
* `Reader.definitions_after`: definitions that stand in a row are read in front of what follows.
* `Document.parse_of_laidOut`: a text in which a document stands is parsed as that document.
-/

namespace GraphQLSyntax

variable {σ : Convention} {g : Position → Position} {k k' : Cursor}

namespace Reader

/-! ## Variables -/

theorem gives_defaultValue {default : Option Value}
    (h : Item.LaidOut σ g (default.toList.flatMap fun v => [.word .equals "=", v.item]) k k')
    (hnext : k'.ahead ∉ [.unknown, .equals]) :
    defaultValue.Gives k k' fun v => v.map (Value.map g) = default := by
  simp only [List.mem_cons, List.not_mem_nil, or_false, not_or] at hnext
  cases default with
  | none =>
    obtain rfl := h.nil
    exact Gives.whenAt_absent hnext.2 rfl
  | some v =>
    rw [Option.toList_some, List.flatMap_singleton] at h
    obtain ⟨hequals, h₁⟩ := h.terminal
    refine Gives.whenAt hequals.ahead ?_
    refine (gives_expect hequals (h₁.ahead_ne (by simp) hnext.1)).bind fun equals _ => ?_
    exact (gives_value h₁.single hnext.1).bind fun v' hv' => Gives.pure (congrArg some hv')

/-- The definition of a variable is read where it stands. -/
theorem gives_variableDefinition {v : VariableDefinition} (hσ : σ.Counted)
    (h : (Part.node (.variableDefinition v)).LaidOut σ g k k')
    (hnext : k'.ahead ∉ [.unknown, .parenOpen, .atSign, .equals, .squareClose]) :
    variableDefinition.Gives k k' fun v' => v'.map g = v := by
  obtain ⟨hname, ⟨_, hrule, hitems⟩, hspans⟩ := h.node
  have hspan := hspans v.span rfl
  simp only [List.mem_cons, List.not_mem_nil, or_false, not_or] at hnext
  cases hrule with
  | variableDefinition =>
    obtain ⟨k₁, htoken, h₁⟩ := hitems.part
    obtain ⟨hcolon, h₂⟩ := h₁.terminal
    obtain ⟨k₃, htype, h₃⟩ := h₂.part
    obtain ⟨k₄, hdefault, hdirectives⟩ := h₃.append
    have hk₁ : k₁.ahead = .colon := hcolon.ahead
    have hk₂ : (k₁.behind (.lexeme .colon ":")).ahead ∈ [.name, .squareOpen] := h₂.ahead_mem
    have hk₄ : k₄.ahead ∉ [.unknown, .equals, .squareClose] :=
      hdirectives.ahead_notMem (by simp) (by simp_all)
    have hk₃ : k₃.ahead ∉ [.unknown, .squareClose] := by
      refine hdefault.ahead_notMem ?_ (by simp_all)
      cases v.default <;> simp
    refine Gives.spanned ?_
    refine (gives_sigilName rfl (.inl rfl) htoken (by rw [hk₁]; decide)).bind fun name hname' => ?_
    refine (gives_expect hcolon ?_).bind fun colon _ => ?_
    · intro heq
      rw [heq] at hk₂
      exact absurd hk₂ (by decide)
    refine (gives_typeRef hσ htype hk₃).bind fun type htype' => ?_
    refine (gives_defaultValue hdefault (by simp_all)).bind fun default hdefault' => ?_
    refine (gives_directives hdirectives (by simp_all)).bind fun ds hds => Gives.pure ?_
    rw [VariableDefinition.map, hname', htype', hdefault', hds, hspan, ← hname.eq_plain]

/-- The variables of an operation are read where they stand, in parentheses. -/
theorem gives_variableDefinitions {definitions : List VariableDefinition} {written : List Item}
    (hσ : σ.Counted) (hwritten : InParentheses (definitions.map VariableDefinition.item) written)
    (h : Item.LaidOut σ g written k k') (hnext : k'.ahead ∉ [.unknown, .parenOpen]) :
    variableDefinitions.Gives k k' fun vs => vs.map (VariableDefinition.map g) = definitions := by
  refine Production.gives_inParentheses (S := [.dollar]) hwritten h hnext (by simp) (by decide) ?_
  intro v _ k₁ k₂ hlaid hk₂
  refine gives_variableDefinition hσ hlaid.single ?_
  simp only [List.mem_cons, List.not_mem_nil, or_false] at hk₂
  rcases hk₂ with hk₂ | hk₂ <;> rw [hk₂] <;> decide

/-! ## Operations and fragments -/

/-- The selections of a definition are read where they stand. Where they are left out, no brace may
follow. -/
theorem takes_definitionBody {selections : List Selection} {body : List Item}
    (hbody : DefinitionBody σ selections body) (h : Item.LaidOut σ g body k k')
    (hdepth : Selection.setDepth selections ≤ maxSelectionDepth)
    (hnext : body = [] → k'.ahead ∉ [.unknown, .parenOpen, .atSign, .curlyOpen]) :
    k.ahead ∉ [.unknown, .parenOpen, .atSign] ∧
      (whenAt .curlyOpen [] ownSelections).Takes k k' fun ss =>
        ss.map (Selection.map g) = selections := by
  cases hbody with
  | absent =>
    obtain rfl := h.nil
    have hnext := hnext rfl
    simp only [List.mem_cons, List.not_mem_nil, or_false, not_or] at hnext ⊢
    have hgives : (whenAt .curlyOpen [] ownSelections).Gives k' k' fun ss =>
        ss.map (Selection.map g) = [] := Gives.whenAt_absent hnext.2.2.2 rfl
    exact ⟨⟨hnext.1, hnext.2.1, hnext.2.2.1⟩, hgives.takes hnext.1⟩
  | present =>
    have hahead : k.ahead = .curlyOpen := List.mem_singleton.mp h.ahead_mem
    refine ⟨by rw [hahead]; decide, Takes.whenAt hahead ?_⟩
    exact takes_selectionSet h (by simp) hdepth

theorem takes_shorthand {selections : List Selection} {span : Span}
    (h : (Part.node (.operation ⟨none, selections, span⟩)).LaidOut σ g k k') :
    shorthand.Takes k k' fun o => o.map g = ⟨none, selections, span⟩ := by
  obtain ⟨⟨-, hdepth⟩, ⟨_, hrule, hitems⟩, hspans⟩ := h.node
  have hspan := hspans span rfl
  cases hrule with
  | shorthand =>
    refine Takes.spanned ((takes_selectionSet hitems (by simp) hdepth).map fun ss hss => ?_)
    rw [Operation.map, hss, hspan, Option.map_none]

/-- The keyword of a header is read as what it spells. -/
theorem classify_keyword {header : OperationHeader} (h : header.WellFormed) :
    KeywordTable.execution.classify header.keyword.text = header.keyword.lexeme := by
  refine KeywordTable.execution_classify_of_spelling? ?_ h.2.1
  have hmem := OperationKind.mem_of_ofLexeme? h.1
  simp only [List.mem_cons, List.not_mem_nil, or_false] at hmem
  rcases hmem with heq | heq | heq <;> rw [heq] <;> decide

/-- The name that an operation may have is read where it stands. Where it is left out, no name may
follow. -/
theorem gives_operationName {name : Option Token} (hname : ∀ t ∈ name, t.IsPlainName)
    (h : Item.LaidOut σ g (name.toList.map Token.item) k k') (hknown : k'.ahead ≠ .unknown)
    (hnext : name = none → k'.ahead ≠ .name) :
    Gives (whenAt .name none do
      let token ← take
      return some token) k k' fun n => n.map (Token.map g) = name := by
  cases name with
  | none =>
    obtain rfl := h.nil
    exact Gives.whenAt_absent (hnext rfl) rfl
  | some t =>
    have ht := hname t rfl
    have htoken := h.single
    refine Gives.whenAt (ht.ahead_eq htoken) ?_
    obtain ⟨hlaid, rfl, hspan⟩ := htoken.token
    rw [ht.terminal_eq] at hlaid hspan hknown ⊢
    refine (gives_take hlaid hknown).bind ?_
    rintro _ rfl
    exact Gives.pure (congrArg some (ht.map_eq hspan))

/-- What follows the name of an operation does not start with a name. -/
theorem ahead_ne_name {definitions : List VariableDefinition} {directives : List Directive}
    {selections : List Selection} {written body : List Item}
    (hwritten : InParentheses (definitions.map VariableDefinition.item) written)
    (hbody : DefinitionBody σ selections body)
    (h : Item.LaidOut σ g (written ++ (directives.map Directive.item ++ body)) k k')
    (hnext : written ++ (directives.map Directive.item ++ body) = [] → k'.ahead ≠ .name) :
    k.ahead ≠ .name := by
  cases hrest : written ++ (directives.map Directive.item ++ body) with
  | nil =>
    rw [hrest] at h
    obtain rfl := h.nil
    exact hnext hrest
  | cons item rest =>
    have hfirst := congrArg List.head? hrest
    rw [List.head?_append, List.head?_append, List.head?_cons, Option.or_eq_some_iff,
      Option.or_eq_some_iff] at hfirst
    rw [hrest] at h
    intro heq
    have hmem := heq ▸ h.ahead_mem
    rcases hfirst with hfirst | ⟨-, hfirst | ⟨-, hfirst⟩⟩
    · have havoid : Item.Avoid [.name] written := hwritten.avoid (by simp) (by decide)
      exact havoid item (List.mem_of_mem_head? hfirst) _ hmem (by simp)
    · obtain ⟨d, -, rfl⟩ := List.mem_map.mp (List.mem_of_mem_head? hfirst)
      cases List.mem_singleton.mp hmem
    · rw [hbody.firsts_head item hfirst] at hmem
      cases List.mem_singleton.mp hmem

/-- An operation is read where it stands, from its keyword on. -/
theorem takes_operation {header : OperationHeader} {selections : List Selection} {span : Span}
    {items : List Item} {pieces : List Piece} (hσ : σ.Counted)
    (h : (Node.operation ⟨some header, selections, span⟩).Spelled σ items
      (pieces.map (Piece.map g))) (hlaid : Laid k pieces k')
    (hends : Item.EndsBefore items k'.ahead) :
    k.keyword = header.keyword.lexeme ∧
      (operation header.kind header.keyword.lexeme).Takes k k' fun o =>
        o.map g = ⟨some header, selections, span⟩ := by
  obtain ⟨hheader, hdepth⟩ := h.wellFormed
  have hspan := h.span_eq hlaid span rfl
  have hheader := hheader header rfl
  have hitems : Item.LaidOut σ g items k k' := ⟨pieces, hlaid, h.spelled⟩
  cases h.rule with
  | @operation _ _ _ written body hwritten hbody =>
    obtain ⟨k₁, htoken, h₁⟩ := hitems.part
    obtain ⟨hlaid, rfl, hplace⟩ := htoken.token
    rw [hheader.terminal_eq] at hlaid hplace h₁
    refine ⟨hlaid.keyword_eq.trans (classify_keyword hheader), ?_⟩
    have hnames (ls : List Lexeme) (hls : .name ∉ ls) :
        Item.Avoid ls (header.name.toList.map Token.item) := by
      simp only [Item.avoid_map, Option.mem_toList]
      intro t ht l hl
      rw [(hheader.2.2.2 t ht).firsts_item, List.mem_singleton] at hl
      rwa [hl]
    -- Only where the body is left out, what follows matters.
    have hopen : body = [] → k'.ahead ∉ [.unknown, .parenOpen, .atSign, .curlyOpen] := by
      rintro rfl
      refine (hends.of_avoid ?_).1
      simp only [Item.avoid_cons, Item.avoid_append, hheader.firsts_item]
      exact ⟨by simp, hnames _ (by decide), hwritten.avoid (by simp) (by decide), by simp, by simp⟩
    have hbare (hnone : header.name = none)
        (hempty : written ++ (header.directives.map Directive.item ++ body) = []) :
        k'.ahead ≠ .name := by
      rw [hnone, hempty] at hends
      refine (hends.of_avoid ?_).2 rfl
      simp [hheader.firsts_item]
    obtain ⟨k₂, hname, h₂⟩ := h₁.append
    have hk₂' (hnone : header.name = none) : k₂.ahead ≠ .name :=
      ahead_ne_name hwritten hbody h₂ (hbare hnone)
    obtain ⟨k₃, hvariables, h₃⟩ := h₂.append
    obtain ⟨k₄, hdirectives, h₄⟩ := h₃.append
    obtain ⟨hk₄, hselections⟩ := takes_definitionBody hbody h₄ hdepth hopen
    have hk₃ : k₃.ahead ∉ [.unknown, .parenOpen] :=
      hdirectives.ahead_notMem (by simp) (by simp_all)
    have hk₂ : k₂.ahead ≠ .unknown :=
      hvariables.ahead_ne (hwritten.avoid (by simp) (by decide)) (by simp_all)
    have hk₁ := hname.ahead_ne (l := .unknown) (hnames _ (by decide)) hk₂
    refine Takes.spanned ((gives_take hlaid hk₁).bind_takes ?_)
    rintro _ rfl
    refine (gives_operationName hheader.2.2.2 hname hk₂ hk₂').bind_takes fun name hname' => ?_
    refine (gives_variableDefinitions hσ hwritten hvariables hk₃).bind_takes fun vs hvs => ?_
    refine (gives_directives hdirectives hk₄).bind_takes fun ds hds => ?_
    refine hselections.map fun ss hss => ?_
    have hkeyword : (Token.plain header.keyword.lexeme header.keyword.text
        (k.spanOf (.lexeme .name header.keyword.text))).map g = header.keyword := by
      rw [Token.map, Token.plain, hplace, ← hheader.2.2.1]
    rw [Operation.map, Option.map_some, OperationHeader.map, hname', hvs, hds, hss, hspan]
    exact congrArg (fun t => Operation.mk (some { header with keyword := t }) selections span)
      hkeyword

/-- The name of a fragment is read where it stands. -/
theorem gives_fragmentName {t : Token} (h : (Part.token t).LaidOut σ g k k') (ht : t.IsPlainName)
    (hreserved : t.text ≠ "on") (hnext : k'.ahead ≠ .unknown) :
    fragmentName.Gives k k' fun t' => t'.map g = t := by
  obtain ⟨hlaid, -, -⟩ := h.token
  rw [ht.terminal_eq] at hlaid
  refine Gives.keyword_bind ?_
  rw [if_neg (keyword_ne_on hlaid hreserved)]
  exact gives_name h ht hnext

/-- A fragment is read where it stands, from its keyword on. -/
theorem takes_fragment {f : Fragment} {items : List Item} {pieces : List Piece}
    (h : (Node.fragment f).Spelled σ items (pieces.map (Piece.map g))) (hlaid : Laid k pieces k')
    (hends : Item.EndsBefore items k'.ahead) :
    k.keyword = .fragment ∧ fragment.Takes k k' fun f' => f'.map g = f := by
  obtain ⟨hname, hreserved, htype, hdepth⟩ := h.wellFormed
  have hspan := h.span_eq hlaid f.span rfl
  have hitems : Item.LaidOut σ g items k k' := ⟨pieces, hlaid, h.spelled⟩
  cases h.rule with
  | @fragment _ body hbody =>
    have hopen : body = [] → k'.ahead ∉ [.unknown, .parenOpen, .atSign, .curlyOpen] := by
      rintro rfl
      refine (hends.of_avoid ?_).1
      simp [hname.firsts_item, htype.firsts_item]
    obtain ⟨hkeyword, h₁⟩ := hitems.terminal
    obtain ⟨k₂, htoken, h₂⟩ := h₁.part
    obtain ⟨hon, h₃⟩ := h₂.terminal
    obtain ⟨k₄, hcondition, h₄⟩ := h₃.part
    obtain ⟨k₅, hdirectives, h₅⟩ := h₄.append
    obtain ⟨hk₅, hselections⟩ := takes_definitionBody hbody h₅ hdepth hopen
    have hk₄ : k₄.ahead ≠ .unknown := hdirectives.ahead_ne (by simp) (by simp_all)
    have hk₁ := hname.ahead_eq htoken
    have hk₂ : k₂.ahead = .name := hon.ahead
    have hk₃ := htype.ahead_eq hcondition
    refine ⟨hkeyword.keyword_eq.trans (by decide), Takes.spanned ?_⟩
    refine (gives_take hkeyword (by rw [hk₁]; decide)).bind_takes fun _ _ => ?_
    refine (gives_fragmentName htoken hname hreserved (by rw [hk₂]; decide)).bind_takes
      fun name hname' => ?_
    refine (gives_onKeyword hon (by rw [hk₃]; decide)).bind_takes fun _ _ => ?_
    refine (gives_name hcondition htype hk₄).bind_takes fun type htype' => ?_
    refine (gives_directives hdirectives hk₅).bind_takes fun ds hds => ?_
    refine hselections.map fun ss hss => ?_
    rw [Fragment.map, hname', htype', hds, hss, hspan]

/-! ## Definitions -/

/-- A definition is read where it stands, if it ends in front of what follows. -/
theorem takes_definition {d : Definition} {items : List Item} {pieces : List Piece}
    (hσ : σ.Counted) (h : d.node.Spelled σ items (pieces.map (Piece.map g)))
    (hlaid : Laid k pieces k') (hends : Item.EndsBefore items k'.ahead) :
    definition.Takes k k' fun d' => d'.map g = d := by
  have hnode : (Part.node d.node).LaidOut σ g k k' :=
    ⟨pieces, hlaid, Part.Spelled.node_iff.mpr ⟨items, h⟩⟩
  unfold definition
  cases d with
  | operation o =>
    obtain ⟨header, selections, span⟩ := o
    cases header with
    | none =>
      have hahead : k.ahead = .curlyOpen := List.mem_singleton.mp hnode.item.ahead_mem
      refine Takes.keyword_bind ?_
      rw [Cursor.keyword_eq_ahead (by rw [hahead]; decide), hahead]
      exact (takes_shorthand hnode).map fun o ho => congrArg Definition.operation ho
    | some header =>
      obtain ⟨hkeyword, htakes⟩ := takes_operation hσ h hlaid hends
      have hkind := (h.wellFormed.1 header rfl).1
      refine Takes.keyword_bind ?_
      rw [hkeyword]
      unfold OperationKind.ofLexeme? at hkind
      split at hkind
      case h_4 => cases hkind
      all_goals
        rename_i heq
        rw [heq, ← Option.some.inj hkind] at htakes
        rw [heq]
        exact htakes.map fun o ho => congrArg Definition.operation ho
  | fragment f =>
    obtain ⟨hkeyword, htakes⟩ := takes_fragment h hlaid hends
    refine Takes.keyword_bind ?_
    rw [hkeyword]
    exact htakes.map fun f' hf' => congrArg Definition.fragment hf'

/-- Definitions that stand in a row are read, and then what follows them. -/
theorem definitions_after {ds : List Definition} {pieces : List Piece} (hσ : σ.Counted)
    (h : Definition.Chain σ ds (pieces.map (Piece.map g)) k'.ahead) (hlaid : Laid k pieces k') :
    ∃ ds', ds'.map (Definition.map g) = ds ∧
      definitions.after k = (definitions.after k').map fun q => (ds' ++ q.1, q.2) := by
  induction ds generalizing k pieces with
  | nil =>
    generalize hmap : pieces.map (Piece.map g) = mapped at h
    cases h
    obtain rfl := List.map_eq_nil_iff.mp hmap
    cases hlaid
    refine ⟨[], rfl, ?_⟩
    generalize definitions.after k' = result
    cases result <;> rfl
  | cons d ds ih =>
    generalize hmap : pieces.map (Piece.map g) = mapped at h
    cases h with
    | cons hd hends h =>
      obtain ⟨first, rest, rfl, rfl, rfl⟩ := List.map_eq_append_iff.mp hmap
      obtain ⟨k₁, hfirst, hrest⟩ := Laid.append_iff.mp hlaid
      rw [Piece.aheadOf_map, ← hrest.ahead_eq] at hends
      have hnode : (Part.node d.node).LaidOut σ g k k₁ :=
        ⟨first, hfirst, Part.Spelled.node_iff.mpr ⟨_, hd⟩⟩
      obtain ⟨hmore, hknown⟩ := hnode.ahead_known
      obtain ⟨d', rfl, hread⟩ := (takes_definition hσ hd hfirst hends).bind_eq
      obtain ⟨ds', rfl, hds⟩ := ih h hrest
      refine ⟨d' :: ds', rfl, ?_⟩
      rw [after_of_known hknown, definitions_of_more hmore, hread, after_map, hds]
      generalize after _ k' = result
      cases result <;> rfl

/-- At the end of a text there are no more definitions. -/
theorem definitions_after_end (h : k.ahead = .eof) :
    definitions.after k = .ok ([], .ofCursor k) := by
  rw [after_of_known (by rw [h]; decide)]
  exact definitions_of_end h

end Reader

theorem Document.parse_eq_after (text : String) : Document.parse text =
    (Reader.definitions.after (.ofText text)).map fun q =>
      ⟨q.1, .start, q.2.scanner.cursor.position⟩ := by
  rw [parse_eq, Reader.advance_bind_eq_after]
  rfl

/-- A text in which definitions stand in a row, up to its end, is parsed as these definitions. -/
theorem Document.parse_of_chain {text : String} {ds : List Definition} {pieces : List Piece}
    (hσ : σ.Counted) (h : Definition.Chain σ ds (pieces.map (Piece.map g)) .eof)
    (hlaid : Laid (.ofText text) pieces k') (hend : k'.ahead = .eof) :
    ∃ d, Document.parse text = .ok d ∧ d.definitions.map (Definition.map g) = ds := by
  obtain ⟨ds', rfl, hread⟩ := Reader.definitions_after hσ (hend ▸ h) hlaid
  rw [Document.parse_eq_after, hread, Reader.definitions_after_end hend]
  exact ⟨_, rfl, congrArg _ (List.append_nil ds')⟩

/-- A text in which the definitions of a document stand, up to its end, is parsed as these
definitions, if all have braces. -/
theorem Document.parse_of_laidOut {text : String} {ds : List Definition} (hσ : σ.Counted)
    (hbraces : ¬ σ.omitsBraces)
    (h : Item.LaidOut σ g (ds.map Definition.item) (.ofText text) k') (hend : k'.ahead = .eof) :
    ∃ d, Document.parse text = .ok d ∧ d.definitions.map (Definition.map g) = ds := by
  obtain ⟨pieces, hlaid, hspelled⟩ := h
  exact parse_of_chain hσ (.of_spelled hbraces hspelled .eof) hlaid hend

/-- A text in which one definition stands, up to its end, is parsed as that definition. Nothing
follows it, so it need not have braces. -/
theorem Document.parse_of_laidOut_single {text : String} {x : Definition} (hσ : σ.Counted)
    (h : Item.LaidOut σ g [x.item] (.ofText text) k') (hend : k'.ahead = .eof) :
    ∃ d, Document.parse text = .ok d ∧ d.definitions.map (Definition.map g) = [x] := by
  obtain ⟨pieces, hlaid, hspelled⟩ := h.single
  exact parse_of_chain hσ (.single hspelled) hlaid hend

end GraphQLSyntax
