import GraphQLSyntax.Proofs.Grammar.Broken.Selection
import GraphQLSyntax.Proofs.Grammar.Scans
import GraphQLSyntax.Proofs.Grammar.Sound.Document

/-!
# Documents that break off

* `Reader.breaks_operation`, `Reader.breaks_fragment`: the definitions, from their keyword on.
* `Reader.breaks_definitions`, `Reader.breaks_toEnd`: what whole texts are read as.
* `SyntaxError.stops_of_error`: the reading of a whole text ends where the text is refused.
-/

namespace GraphQLSyntax

namespace Reader

variable {k : Cursor} {sets : Bool}

/-! ## Documents -/

theorem breaks_defaultValue : defaultValue.Breaks sets fun default items =>
    items = default.toList.flatMap fun v => [.word .equals "=", v.item] := by
  refine Breaks.whenAt fun k _ => ?_
  refine (Breaks.word (c := '=') rfl _ k).bind ?_ (Reads.word (c := '=') rfl _ k) ?_
  · rintro equals _ rfl
    exact ⟨some default, _, rfl⟩
  rintro equals _ k₁ rfl
  refine (breaks_value k₁).map ?_
  rintro value _ rfl
  rfl

theorem breaks_variableDefinition :
    variableDefinition.Breaks sets fun v items => items = [v.item] := by
  intro k
  refine BreaksFrom.spanned .variableDefinition true (U := fun build items =>
    ∃ name type default directives,
      build = (fun span => ⟨name, type, default, directives, span⟩) ∧
      items = .part (.sigilName '$' name) :: .word .colon ":" :: type.item ::
        (default.toList.flatMap (fun v => [.word .equals "=", v.item]) ++
          directives.map Directive.item)) ?_ ?_
  · refine (BreaksFrom.sigilName (c := '$') (fun t => .part (.sigilName '$' t)) rfl (.inl rfl)
      (fun name span => spelled_sigilName '$')).bind ?_ (Reads.sigilName (c := '$')
      (fun t => .part (.sigilName '$' t)) rfl (.inl rfl) (fun name span => spelled_sigilName '$')
      k) ?_
    · rintro name _ ⟨rfl, -⟩
      exact ⟨_, _, name, default, none, [], rfl, rfl⟩
    rintro name _ k₁ ⟨rfl, -⟩
    refine (Breaks.word (c := ':') rfl _ k₁).bind ?_ (Reads.word (c := ':') rfl _ k₁) ?_
    · rintro colon _ rfl
      exact ⟨_, _, name, default, none, [], rfl, rfl⟩
    rintro colon _ k₂ rfl
    refine (breaks_typeRef k₂).bind ?_ (reads_typeRef k₂) ?_
    · rintro type _ rfl
      exact ⟨_, [], name, type, none, [], rfl, rfl⟩
    rintro type _ k₃ rfl
    refine (breaks_defaultValue k₃).bind ?_ (reads_defaultValue k₃) ?_
    · rintro default _ rfl
      exact ⟨_, [], name, type, default, [], rfl, rfl⟩
    rintro default _ k₄ rfl
    refine (breaks_directives k₄).map ?_
    rintro directives _ rfl
    exact ⟨name, type, default, directives, rfl, rfl⟩
  · rintro _ _ span ⟨name, type, default, directives, rfl, rfl⟩
    exact ⟨⟨by simp [Node.Worded, Node.parts],
      .variableDefinition ⟨name, type, default, directives, span⟩⟩, fun _ => rfl, rfl⟩

theorem breaks_variableDefinitions : variableDefinitions.Breaks sets fun definitions items =>
    InParentheses (definitions.map VariableDefinition.item) items :=
  Breaks.inParentheses (f := VariableDefinition.item) reads_variableDefinition
    breaks_variableDefinition fun _ => rfl

theorem breaks_ownSelections : ownSelections.Breaks false fun selections items =>
    items = Item.braced (selections.map Selection.item) := fun k =>
  (breaks_selectionSet true maxSelectionDepth k).mono id fun _ _ h => h.1

theorem breaks_body : (whenAt .curlyOpen [] ownSelections).Breaks false fun selections items =>
    DefinitionBody .reading selections items := by
  refine Breaks.whenAt fun k _ => (breaks_ownSelections k).mono id ?_
  rintro selections _ rfl
  exact .present selections

theorem breaks_shorthand :
    shorthand.Breaks sets fun o items => items = [.part (.node (.operation o))] := by
  intro k
  refine BreaksFrom.spanned .operation false (U := fun build items =>
    ∃ selections, build = (fun span => ⟨none, selections, span⟩) ∧
      items = Item.braced (selections.map Selection.item)) ?_ ?_
  · refine (breaks_ownSelections k).map ?_
    rintro selections _ rfl
    exact ⟨selections, rfl, rfl⟩
  · rintro _ _ span ⟨selections, rfl, rfl⟩
    exact ⟨⟨by simp [Node.Worded, Node.parts, Operation.keyword, Operation.name,
      Operation.variableDefinitions, Operation.directives], .shorthand selections span⟩, nofun, rfl⟩

theorem breaks_operationName :
    (whenAt .name none (do let token ← take; return some token)).Breaks sets fun name items =>
      items = name.toList.map Token.item ∧ ∀ t ∈ name, t.IsPlainName := by
  refine Breaks.whenAt fun k h => ?_
  refine (BreaksFrom.take Token.item h rfl fun text span => spelled_token rfl).map ?_
  rintro t _ ⟨rfl, hlexeme, htype⟩
  exact ⟨rfl, by simpa using ⟨hlexeme, htype⟩⟩

theorem form_operation {header : OperationHeader} {written body : List Item}
    {selections : List Selection} (span : Span)
    (hkeyword : header.keyword.terminal = .lexeme .name header.keyword.text)
    (hname : ∀ t ∈ header.name, t.IsPlainName)
    (hwritten : InParentheses (header.variableDefinitions.map VariableDefinition.item) written)
    (hbody : DefinitionBody .reading selections body) :
    (Node.operation ⟨some header, selections, span⟩).Form .reading
      (header.keyword.item :: (header.name.toList.map Token.item ++ (written ++
        (header.directives.map Directive.item ++ body)))) := by
  refine ⟨fun t ht => ?_, .operation header selections span hwritten hbody⟩
  have htoken : t = header.keyword ∨ header.name = some t := by
    simpa [Node.parts, Operation.keyword, Operation.name, eq_comm] using ht
  rcases htoken with rfl | htoken
  · exact hkeyword
  · exact (hname t htoken).terminal_eq

/-- An operation is left open behind its name, or in one of its parts. -/
theorem breaks_operation {kind : OperationKind} {keyword : Lexeme} (h : k.keyword = keyword)
    (hkind : OperationKind.ofLexeme? keyword = some kind) :
    (operation kind keyword).BreaksFrom sets
      (fun o items => items = [.part (.node (.operation o))]) k := by
  obtain ⟨word, hword⟩ : ∃ word, keyword.spelling? = some word := by
    cases keyword <;> cases hkind <;> exact ⟨_, rfl⟩
  have hterminal (span : Span) :
      (Token.mk keyword word span none).terminal = .lexeme .name word := by
    cases keyword <;> cases hkind <;> rfl
  refine BreaksFrom.spanned .operation false (U := fun build items =>
    ∃ (header : OperationHeader) (selections : List Selection) (written body : List Item),
      header.keyword.terminal = .lexeme .name header.keyword.text ∧
      (∀ t ∈ header.name, t.IsPlainName) ∧
      InParentheses (header.variableDefinitions.map VariableDefinition.item) written ∧
      DefinitionBody .reading selections body ∧
      build = (fun span => ⟨some header, selections, span⟩) ∧
      items = header.keyword.item :: (header.name.toList.map Token.item ++ (written ++
        (header.directives.map Directive.item ++ body)))) ?_ ?_
  · refine (BreaksFrom.takeKeyword (fun t => Token.item { t with lexeme := keyword }) h hword
      (fun span => spelled_token (hterminal span))).bind ?_ (ReadsFrom.takeKeyword
      (fun t => Token.item { t with lexeme := keyword }) h hword
      (fun span => spelled_token (hterminal span))) ?_
    · rintro _ _ ⟨rfl, span, rfl⟩
      exact ⟨_, [], ⟨kind, ⟨keyword, word, span, none⟩, none, [], []⟩, [], [], [], hterminal span,
        by simp, .absent, .absent trivial, rfl, rfl⟩
    rintro _ _ k₁ ⟨rfl, span, rfl⟩
    refine (breaks_operationName k₁).bind ?_ (reads_operationName k₁) ?_
    · rintro name _ ⟨rfl, hname⟩
      exact ⟨_, [], ⟨kind, ⟨keyword, word, span, none⟩, name, [], []⟩, [], [], [], hterminal span,
        hname, .absent, .absent trivial, rfl, by simp; rfl⟩
    rintro name _ k₂ ⟨rfl, hname, -⟩
    refine (breaks_variableDefinitions k₂).bind ?_ (reads_variableDefinitions k₂) ?_
    · exact fun definitions written hwritten => ⟨_, [],
        ⟨kind, ⟨keyword, word, span, none⟩, name, definitions, []⟩, [], written, [],
        hterminal span, hname, hwritten, .absent trivial, rfl, by simp; rfl⟩
    intro definitions written k₃ hwritten
    refine (breaks_directives k₃).bind ?_ (reads_directives k₃) ?_
    · rintro directives _ rfl
      exact ⟨_, [], ⟨kind, ⟨keyword, word, span, none⟩, name, definitions, directives⟩, [], written,
        [], hterminal span, hname, hwritten, .absent trivial, rfl, by simp; rfl⟩
    rintro directives _ k₄ ⟨rfl, -⟩
    refine (breaks_body k₄).map ?_
    exact fun selections body hbody =>
      ⟨⟨kind, ⟨keyword, word, span, none⟩, name, definitions, directives⟩, selections, written,
        body, hterminal span, hname, hwritten, hbody, rfl, by simp; rfl⟩
  · rintro _ _ span ⟨header, selections, written, body, hkeyword, hname, hwritten, hbody, rfl, rfl⟩
    exact ⟨form_operation span hkeyword hname hwritten hbody, nofun, rfl⟩

theorem breaks_fragmentName :
    fragmentName.Breaks sets fun t items => items = [t.item] ∧ t.IsPlainName := by
  intro k
  refine BreaksFrom.keyword_bind ?_
  split
  · refine .fail (.withNote (.withNote (.error ?_ ?_ nofun) rfl) rfl) (b := someName)
      ⟨rfl, isPlainName_someName⟩ <;> rintro _ ⟨⟩
  · exact .name _

theorem form_fragment {f : Fragment} {body : List Item} (hname : f.name.IsPlainName)
    (hcondition : f.typeCondition.IsPlainName)
    (hbody : DefinitionBody .reading f.selections body) : (Node.fragment f).Form .reading
      (.keyword "fragment" :: f.name.item :: .keyword "on" :: f.typeCondition.item ::
        (f.directives.map Directive.item ++ body)) := by
  refine ⟨fun t ht => ?_, .fragment f hbody⟩
  have htoken : t = f.name ∨ t = f.typeCondition := by simpa [Node.parts] using ht
  rcases htoken with rfl | rfl
  · exact hname.terminal_eq
  · exact hcondition.terminal_eq

theorem breaks_fragment (h : k.keyword = .fragment) : fragment.BreaksFrom sets
    (fun f items => items = [.part (.node (.fragment f))]) k := by
  refine BreaksFrom.spanned .fragment false (U := fun build items =>
    ∃ name typeCondition directives selections body, name.IsPlainName ∧
      typeCondition.IsPlainName ∧ DefinitionBody .reading selections body ∧
      build = (fun span => ⟨name, typeCondition, directives, selections, span⟩) ∧
      items = .keyword "fragment" :: name.item :: .keyword "on" :: typeCondition.item ::
        (directives.map Directive.item ++ body)) ?_ ?_
  · have hsome := isPlainName_someName
    refine (BreaksFrom.takeKeyword (fun _ => .keyword "fragment") h rfl (spelled_terminal _)).bind
      ?_ (ReadsFrom.takeKeyword (fun _ => .keyword "fragment") h rfl (spelled_terminal _)) ?_
    · rintro keyword _ ⟨rfl, -⟩
      exact ⟨_, _, someName, someName, [], [], [], hsome, hsome, .absent trivial, rfl, rfl⟩
    rintro keyword _ k₁ ⟨rfl, -⟩
    refine (breaks_fragmentName k₁).bind ?_ (reads_fragmentName k₁) ?_
    · rintro name _ ⟨rfl, hname⟩
      exact ⟨_, _, name, someName, [], [], [], hname, hsome, .absent trivial, rfl, rfl⟩
    rintro name _ k₂ ⟨rfl, hname, -⟩
    refine (breaks_onKeyword k₂).bind ?_ (reads_onKeyword k₂) ?_
    · rintro on _ rfl
      exact ⟨_, _, name, someName, [], [], [], hname, hsome, .absent trivial, rfl, rfl⟩
    rintro on _ k₃ rfl
    refine (BreaksFrom.name _).bind ?_ (ReadsFrom.name _) ?_
    · rintro typeCondition _ ⟨rfl, hcondition⟩
      exact ⟨_, _, name, typeCondition, [], [], [], hname, hcondition, .absent trivial, rfl, rfl⟩
    rintro typeCondition _ k₄ ⟨rfl, hcondition, -⟩
    refine (breaks_directives k₄).bind ?_ (reads_directives k₄) ?_
    · rintro directives _ rfl
      exact ⟨_, [], name, typeCondition, directives, [], [], hname, hcondition, .absent trivial,
        rfl, by simp⟩
    rintro directives _ k₅ ⟨rfl, -⟩
    refine (breaks_body k₅).map ?_
    exact fun selections body hbody =>
      ⟨name, typeCondition, directives, selections, body, hname, hcondition, hbody, rfl, by simp⟩
  · rintro _ _ span ⟨name, typeCondition, directives, selections, body, hname, hcondition, hbody,
      rfl, rfl⟩
    exact ⟨form_fragment hname hcondition hbody, nofun, rfl⟩

theorem breaks_failDefinition : failDefinition.Breaks sets fun d items => items = [d.item] := by
  intro k e he
  unfold Reader.failDefinition at he
  split at he
  · rename_i keyword _
    cases he
    have hplain : ((Scanner.ofCursor k.skipTrivia).error (.schemaDefinition keyword)).Plain k :=
      .error nofun nofun nofun
    exact ⟨default, _, rfl, .of_plain (hplain.withNote rfl) _⟩
  · cases he
    exact ⟨default, _, rfl, .of_plain (.unexpected _) _⟩

theorem breaks_definition : definition.Breaks sets fun d items => items = [d.item] := by
  intro k
  refine BreaksFrom.keyword_bind ?_
  split
  · exact (breaks_shorthand k).map (by rintro o _ rfl; rfl)
  · rename_i h
    exact (breaks_operation h rfl).map (by rintro o _ rfl; rfl)
  · rename_i h
    exact (breaks_operation h rfl).map (by rintro o _ rfl; rfl)
  · rename_i h
    exact (breaks_operation h rfl).map (by rintro o _ rfl; rfl)
  · rename_i h
    exact (breaks_fragment h).map (by rintro f _ rfl; rfl)
  · exact breaks_failDefinition k
  · exact .failUnexpected _ (b := default) rfl

theorem breaks_definitions : definitions.Breaks sets fun ds items =>
    items = ds.map Definition.item :=
  Production.breaks_repeatWhile (P := fun _ => True) (by rintro s e ⟨⟩)
    (fun _ => reads_definition.readsFrom fun _ _ _ _ => ⟨rfl, trivial⟩) breaks_definition

/-! ## Whole texts -/

/-- More than a whole part is refused behind that part. -/
theorem breaks_toEnd {α : Type} {part : Reader α} {T : α → List Item → Prop}
    (h : part.Breaks sets T) (hreads : part.Reads fun a items _ => T a items) :
    (toEnd part).Breaks sets T := by
  intro k
  refine (h k).bind (fun a items ha => ⟨a, [], by rwa [List.append_nil]⟩) (hreads k) ?_
  intro a items k' ha e he
  rcases bind_eq_error.mp he with he | ⟨-, -, -, ⟨⟩⟩
  unfold Reader.endOfInput at he
  rw [lexeme_bind] at he
  split at he
  · cases he
  · cases he
    refine ⟨a, [], ?_, .of_plain (.unexpected _) _⟩
    simpa using ha

/-- What is read from the start of a text on breaks off behind it. -/
theorem Breaks.of_start {α : Type} {p : Reader α} {T : α → List Item → Prop} {text : String}
    {e : SyntaxError} {a : α} {items : List Item} (h : p.Breaks sets T) (ha : T a items)
    (he : (Reader.advance >>= fun _ => p) (.ofText text) = .error e) :
    ∃ a items, T a items ∧ Item.Stops e sets (.ofText text) items := by
  rcases bind_eq_error.mp he with he | ⟨u, r, hr, he⟩
  · exact ⟨a, items, ha, .of_plain (advance_error he) items⟩
  · obtain ⟨-, rfl⟩ := advance_eq_ok.mp hr
    exact h (.ofText text) e he

end Reader

namespace SyntaxError

variable {text : String} {e : SyntaxError}

/-- Some items that a text might have been made of, if it had not been refused. -/
inductive Refuses (e : SyntaxError) (text : String) : (items : List Item) → Prop where
  | document (definitions : List Definition) (h : Document.parse text = .error e) :
    Refuses e text (definitions.map Definition.item)
  | typeRef (t : TypeRef) (h : TypeRef.parse text = .error e) : Refuses e text [t.item]
  | value (v : Value) (h : Value.parse text = .error e) : Refuses e text [v.item]

/-- The items of a whole text are nodes. -/
theorem Refuses.isNode {items : List Item} (h : e.Refuses text items) :
    ∀ item ∈ items, item.isLeaf = false := by
  cases h with
  | document => simp [Definition.item, Item.isLeaf]
  | typeRef => simp [TypeRef.item, Item.isLeaf]
  | value => simp [Value.item, Item.isLeaf]

/-- **The reading of a whole text ends where the text is refused.** -/
theorem stops_of_error (h : Document.parse text = .error e ∨ TypeRef.parse text = .error e ∨
    Value.parse text = .error e) :
    ∃ items, e.Refuses text items ∧ Item.Stops e false (.ofText text) items := by
  rcases h with h | h | h
  · have he := h
    rw [Document.parse_eq] at he
    obtain ⟨ds, _, rfl, hstops⟩ :=
      Reader.breaks_definitions.of_start (a := []) rfl (Reader.error_of_map he)
    exact ⟨_, .document ds h, hstops⟩
  · have hbreaks : (Reader.toEnd Reader.typeRef).Breaks false _ :=
      Reader.breaks_toEnd Reader.breaks_typeRef Reader.reads_typeRef
    obtain ⟨t, _, rfl, hstops⟩ := hbreaks.of_start (a := default) rfl (Reader.error_of_map h)
    exact ⟨_, .typeRef t h, hstops⟩
  · have hbreaks : (Reader.toEnd Reader.value).Breaks false _ :=
      Reader.breaks_toEnd Reader.breaks_value Reader.reads_value
    obtain ⟨v, _, rfl, hstops⟩ := hbreaks.of_start (a := default) rfl (Reader.error_of_map h)
    exact ⟨_, .value v h, hstops⟩

end SyntaxError

end GraphQLSyntax
