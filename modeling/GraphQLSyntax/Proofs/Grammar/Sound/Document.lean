import GraphQLSyntax.Proofs.Grammar.Chain
import GraphQLSyntax.Proofs.Grammar.Sound.Selection
import GraphQLSyntax.Proofs.Grammar.Sound.TypeRef

/-!
# Documents are read as they are written

* `Reader.reads_operation`, `Reader.reads_fragment`: the definitions, from their keyword on.
* `Reader.reads_definition`: a definition.
* `Document.spelled_of_parse`: an accepted text is made of the pieces of its document.
-/

namespace GraphQLSyntax

namespace Reader

variable {k : Cursor}

/-! ## Variables -/

theorem reads_defaultValue : defaultValue.Reads fun default items _ =>
    items = default.toList.flatMap fun v => [.word .equals "=", v.item] := by
  refine Reads.whenAt (fun k _ => ?_) fun _ _ => rfl
  refine (Reads.word (c := '=') rfl _ k).bind ?_
  rintro equals _ k₁ rfl
  refine (reads_value k₁).bind ?_
  rintro value _ k₂ rfl
  exact ReadsFrom.pure rfl

theorem reads_variableDefinition : variableDefinition.Reads fun v items _ =>
    items = [v.item] ∧ True := by
  intro k
  refine ReadsFrom.spanned .variableDefinition (T := fun build items _ =>
    ∃ name type default directives, name.IsPlainName ∧
      build = (fun span => ⟨name, type, default, directives, span⟩) ∧
      items = .part (.sigilName '$' name) :: .word .colon ":" :: type.item ::
        (default.toList.flatMap (fun v => [.word .equals "=", v.item]) ++
          directives.map Directive.item)) ?_ ?_
  · refine (Reads.sigilName (c := '$') (fun t => .part (.sigilName '$' t)) rfl (.inl rfl)
      (fun name span => spelled_sigilName '$') k).bind ?_
    rintro name _ k₁ ⟨rfl, hname⟩
    refine (Reads.word (c := ':') rfl _ k₁).bind ?_
    rintro colon _ k₂ rfl
    refine (reads_typeRef k₂).bind ?_
    rintro type _ k₃ rfl
    refine (reads_defaultValue k₃).bind ?_
    rintro default _ k₄ rfl
    refine (reads_directives k₄).bind ?_
    rintro directives _ k₅ ⟨rfl, -⟩
    refine ReadsFrom.pure ⟨name, type, default, directives, hname, rfl, ?_⟩
    rw [List.append_nil]
    rfl
  · rintro _ _ k' span ⟨name, type, default, directives, hname, rfl, rfl⟩
    exact ⟨hname, .variableDefinition ⟨name, type, default, directives, span⟩, rfl, rfl, trivial⟩

theorem reads_variableDefinitions : variableDefinitions.Reads fun definitions items _ =>
    InParentheses (definitions.map VariableDefinition.item) items :=
  Production.reads_inParentheses reads_variableDefinition

/-! ## Operations -/

theorem reads_ownSelections : ownSelections.Reads fun selections items _ =>
    items = Item.braced (selections.map Selection.item) ∧
      Selection.setDepth selections ≤ maxSelectionDepth := by
  refine (reads_selectionSet true maxSelectionDepth).mono ?_
  rintro selections items k' ⟨hitems, -, hdepth⟩
  exact ⟨hitems, hdepth⟩

/-- The selections of a definition, which may be left out. No brace follows then. -/
theorem reads_body : (whenAt .curlyOpen [] ownSelections).Reads fun selections items k' =>
    DefinitionBody .reading selections items ∧ Selection.setDepth selections ≤ maxSelectionDepth ∧
      (items = [] → k'.ahead ≠ .curlyOpen) := by
  refine Reads.whenAt (fun k _ => (reads_ownSelections k).mono ?_) fun _ hahead =>
    ⟨.absent trivial, by decide, fun _ => hahead⟩
  rintro selections _ k' ⟨rfl, hdepth⟩
  exact ⟨.present selections, hdepth, by rintro ⟨⟩⟩

/-- Where the selections of a definition are left out, it is told from what follows that it ends. -/
theorem endsBefore_of_body {selections : List Selection} {front body : List Item} {l : Lexeme}
    (hbody : DefinitionBody .reading selections body) (hbrace : body = [] → l ≠ .curlyOpen)
    (hname : (front ++ body).length = 1 → l ≠ .name)
    (hnext : l ∉ [.unknown, .parenOpen, .atSign]) : Item.EndsBefore (front ++ body) l := by
  cases hbody with
  | absent =>
    refine .inr ⟨?_, hname⟩
    have hbrace := hbrace rfl
    simp_all
  | present => exact .inl (Item.getLast?_braced _ _)

/-- What a definition is written with ends in front of what follows, if that cannot be part of it
anyway. -/
def Ended (items : List Item) (k' : Cursor) : Prop :=
  k'.ahead ∉ [.unknown, .parenOpen, .atSign] → Item.EndsBefore items k'.ahead

theorem reads_shorthand : shorthand.ReadsNode Node.operation (fun _ => Ended) k := by
  refine ReadsNode.spanned (U := fun build items _ =>
    ∃ selections, Selection.setDepth selections ≤ maxSelectionDepth ∧
      build = (fun span => ⟨none, selections, span⟩) ∧
      items = Item.braced (selections.map Selection.item)) ?_ ?_
  · refine (reads_ownSelections k).bind ?_
    rintro selections _ k₁ ⟨rfl, hdepth⟩
    refine ReadsFrom.pure ⟨selections, hdepth, rfl, ?_⟩
    rw [List.append_nil]
  · rintro _ _ k' span ⟨selections, hdepth, rfl, rfl⟩
    exact ⟨⟨by simp, hdepth⟩, .shorthand selections span, rfl,
      fun _ => .inl (Item.getLast?_braced [] _)⟩

/-- The name that an operation may have. No name follows where it has none. -/
theorem reads_operationName : (whenAt .name none (do let token ← take; return some token)).Reads
    fun name items k' => items = name.toList.map Token.item ∧ (∀ t ∈ name, t.IsPlainName) ∧
      (name = none → k'.ahead ≠ .name) := by
  refine Reads.whenAt (fun k h => ?_) fun _ hahead => ⟨rfl, by simp, fun _ => hahead⟩
  refine (ReadsFrom.take Token.item h rfl fun text span => spelled_token rfl).bind ?_
  rintro t _ k₁ ⟨rfl, hlexeme, htype, -⟩
  exact ReadsFrom.pure ⟨rfl, by simpa using ⟨hlexeme, htype⟩, by rintro ⟨⟩⟩

/-- An operation is read from the keyword that spells its kind. -/
theorem reads_operation {kind : OperationKind} {keyword : Lexeme} (h : k.keyword = keyword)
    (hkind : OperationKind.ofLexeme? keyword = some kind) :
    (operation kind keyword).ReadsNode Node.operation (fun _ => Ended) k := by
  obtain ⟨word, hword⟩ : ∃ word, keyword.spelling? = some word := by
    cases keyword <;> cases hkind <;> exact ⟨_, rfl⟩
  have hterminal (span : Span) :
      (Token.mk keyword word span none).terminal = .lexeme .name word := by
    cases keyword <;> cases hkind <;> rfl
  refine ReadsNode.spanned (U := fun build items k' =>
    ∃ header selections written body, OperationHeader.WellFormed header ∧
      InParentheses (header.variableDefinitions.map VariableDefinition.item) written ∧
      DefinitionBody .reading selections body ∧ Selection.setDepth selections ≤ maxSelectionDepth ∧
      build = (fun span => ⟨some header, selections, span⟩) ∧
      items = header.keyword.item :: (header.name.toList.map Token.item ++ (written ++
        (header.directives.map Directive.item ++ body))) ∧
      (body = [] → k'.ahead ≠ .curlyOpen) ∧ (items.length = 1 → k'.ahead ≠ .name)) ?_ ?_
  · refine (ReadsFrom.takeKeyword (fun t => Token.item { t with lexeme := keyword }) h hword
      (fun span => spelled_token (hterminal span))).bind ?_
    rintro _ _ k₁ ⟨rfl, span, rfl⟩
    refine (reads_operationName k₁).bind ?_
    rintro name _ k₂ ⟨rfl, hname, hnone⟩
    refine (reads_variableDefinitions k₂).stays.bind ?_
    rintro definitions written k₃ ⟨hvariables, hk₃⟩
    refine (reads_directives k₃).stays.bind ?_
    rintro directives _ k₄ ⟨⟨rfl, -⟩, hk₄⟩
    refine (reads_body k₄).stays.bind ?_
    rintro selections body k₅ ⟨⟨hbody, hdepth, hbrace⟩, hk₅⟩
    refine ReadsFrom.pure ⟨⟨kind, ⟨keyword, word, span, none⟩, name, definitions, directives⟩,
      selections, written, body, ⟨hkind, hword, rfl, hname⟩, hvariables, hbody, hdepth, rfl, ?_,
      hbrace, fun hlength => ?_⟩
    · rw [List.append_nil]
      rfl
    · -- Behind a keyword alone, the reading stays where no name was found.
      simp only [List.append_nil, List.length_append, List.length_map, List.length_singleton,
        Nat.add_eq_left, Nat.add_eq_zero_iff, List.length_eq_zero_iff, Option.toList_eq_nil_iff]
        at hlength
      obtain ⟨hname, rfl, hdirectives, rfl⟩ := hlength
      rw [hk₅ rfl, hk₄ (by rw [hdirectives]; rfl), hk₃ rfl]
      exact hnone hname
  · rintro _ _ k' span ⟨header, selections, written, body, hheader, hvariables, hbody, hdepth,
      rfl, rfl, hbrace, hbare⟩
    refine ⟨⟨by simpa using hheader, hdepth⟩,
      .operation header selections span hvariables hbody, rfl, fun hnext => ?_⟩
    simp only [← List.append_assoc, ← List.cons_append] at hbare ⊢
    exact endsBefore_of_body hbody hbrace hbare hnext

/-! ## Fragments -/

theorem reads_fragmentName : fragmentName.Reads fun t items _ =>
    items = [t.item] ∧ t.IsPlainName ∧ t.text ≠ "on" := by
  intro k
  refine ReadsFrom.keyword_bind ?_
  split
  · exact ReadsFrom.fail _
  · rename_i hon
    refine (ReadsFrom.name _).mono ?_
    rintro t items k' ⟨hitems, hname, hkeyword⟩
    exact ⟨hitems, hname, KeywordTable.ne_on (hkeyword ▸ hon)⟩

theorem reads_fragment (h : k.keyword = .fragment) :
    fragment.ReadsNode Node.fragment (fun _ => Ended) k := by
  refine ReadsNode.spanned (U := fun build items k' =>
    ∃ name typeCondition directives selections body, name.IsPlainName ∧ name.text ≠ "on" ∧
      typeCondition.IsPlainName ∧ DefinitionBody .reading selections body ∧
      Selection.setDepth selections ≤ maxSelectionDepth ∧
      build = (fun span => ⟨name, typeCondition, directives, selections, span⟩) ∧
      items = .keyword "fragment" :: name.item :: .keyword "on" :: typeCondition.item ::
        (directives.map Directive.item ++ body) ∧ (body = [] → k'.ahead ≠ .curlyOpen)) ?_ ?_
  · refine (ReadsFrom.takeKeyword (fun _ => .keyword "fragment") h rfl
      (spelled_terminal _)).bind ?_
    rintro keyword _ k₁ ⟨rfl, -⟩
    refine (reads_fragmentName k₁).bind ?_
    rintro name _ k₂ ⟨rfl, hname, hon⟩
    refine (reads_onKeyword k₂).bind ?_
    rintro on _ k₃ rfl
    refine (ReadsFrom.name _).bind ?_
    rintro typeCondition _ k₄ ⟨rfl, htype, -⟩
    refine (reads_directives k₄).bind ?_
    rintro directives _ k₅ ⟨rfl, -⟩
    refine (reads_body k₅).bind ?_
    rintro selections body k₆ ⟨hbody, hdepth, hbrace⟩
    refine ReadsFrom.pure ⟨name, typeCondition, directives, selections, body, hname, hon, htype,
      hbody, hdepth, rfl, ?_, hbrace⟩
    rw [List.append_nil]
    rfl
  · rintro _ _ k' span ⟨name, typeCondition, directives, selections, body, hname, hon, htype,
      hbody, hdepth, rfl, rfl, hbrace⟩
    refine ⟨⟨hname, hon, htype, hdepth⟩,
      .fragment ⟨name, typeCondition, directives, selections, span⟩ hbody, rfl, fun hnext => ?_⟩
    simp only [← List.cons_append]
    exact endsBefore_of_body hbody hbrace (by simp) hnext

/-! ## Definitions -/

theorem reads_definition : definition.ReadsNode Definition.node (fun _ => Ended) k := by
  unfold definition
  intro d r' h
  rw [keyword_bind] at h
  revert d r' h
  show ReadsNode _ _ _ k
  split
  · exact reads_shorthand.map (fun _ => rfl) fun _ _ _ h => h
  · rename_i h
    exact (reads_operation h rfl).map (fun _ => rfl) fun _ _ _ h => h
  · rename_i h
    exact (reads_operation h rfl).map (fun _ => rfl) fun _ _ _ h => h
  · rename_i h
    exact (reads_operation h rfl).map (fun _ => rfl) fun _ _ _ h => h
  · rename_i h
    exact (reads_fragment h).map (fun _ => rfl) fun _ _ _ h => h
  · intro d r' h
    unfold failDefinition at h
    split at h <;> cases h
  · rintro d r' ⟨⟩

/-- One definition after the other is read, and there is more of the text in front of each. -/
inductive ReadsDefinitions : (r : Reading) → (ds : List Definition) → (r' : Reading) → Prop where
  | nil (r : Reading) : ReadsDefinitions r [] r
  | cons {r r₁ r' : Reading} {d : Definition} {ds : List Definition}
    (hmore : r.scanner.lexeme ≠ .eof) (hd : definition r = .ok (d, r₁))
    (h : ReadsDefinitions r₁ ds r') : ReadsDefinitions r (d :: ds) r'

/-- Definitions that are read stand in a row, and could stand at the end of a text. This is where
they stand, or where the next definition is refused. -/
theorem collect_definitions {ds : List Definition} {ending : Except SyntaxError Reading}
    (h : Production.collect ⟨definition, advances_definition⟩ (fun s => .ok (s.lexeme ≠ .eof))
      (.ofCursor k) = (ds, ending)) :
    ∃ k' pieces, Laid k pieces k' ∧ Definition.Chain .reading ds pieces .eof ∧
      ReadsDefinitions (.ofCursor k) ds (.ofCursor k') ∧
      (∀ r, ending = .ok r → r = .ofCursor k' ∧ k'.ahead = .eof) ∧
      ∀ e, ending = .error e → k'.ahead ≠ .eof ∧ definition (.ofCursor k') = .error e := by
  induction ds generalizing k with
  | nil =>
    obtain ⟨-, hends⟩ | ⟨_, _, _, ⟨⟩, -⟩ := Production.collect_cases h
    refine ⟨k, [], rfl, .nil _, .nil _, ?_, ?_⟩
    · rintro r rfl
      obtain ⟨hmore, ⟨⟩⟩ | ⟨_, ⟨⟩, -⟩ := hends
      rw [Except.ok.injEq, decide_eq_false_iff_not, not_not] at hmore
      exact ⟨rfl, hmore⟩
    · rintro e rfl
      obtain ⟨-, ⟨⟩⟩ | ⟨_, ⟨⟩, ⟨⟨⟩⟩ | ⟨hmore, hread⟩⟩ := hends
      rw [Except.ok.injEq, decide_eq_true_eq] at hmore
      exact ⟨hmore, hread⟩
  | cons d ds ih =>
    obtain ⟨⟨⟩, -⟩ | ⟨_, _, r₁, ⟨⟩, hmore, hread, hrest⟩ := Production.collect_cases h
    rw [Except.ok.injEq, decide_eq_true_eq] at hmore
    obtain ⟨k₁, items, first, rfl, hfirst, hd, hended⟩ := reads_definition _ _ hread
    obtain ⟨k', pieces, hlaid, hchain, hreads, hstops⟩ := ih hrest
    refine ⟨k', first ++ pieces, hfirst.append hlaid, .cons hd ?_ hchain, .cons hmore hread hreads,
      hstops⟩
    cases hchain with
    | nil => exact .inr ⟨by decide, fun _ => by decide⟩
    | cons hd' hends' hchain =>
      -- Another definition follows.
      have hspelled := (Definition.Chain.cons hd' hends' hchain).spelled
      have hmem := Definition.mem_firsts_item (hspelled.laidOut hlaid).ahead_mem
      simp only [List.mem_cons, List.not_mem_nil, or_false] at hmem
      have hends := hended (by rcases hmem with hmem | hmem <;> rw [hmem] <;> decide)
      obtain ⟨p, ps, hfirst'⟩ := List.exists_cons_of_ne_nil (hd'.rule.pieces_ne_nil hd'.spelled)
      rw [hlaid.ahead_eq, hfirst'] at hends
      rw [hfirst']
      exact hends

/-- Definitions are read in a row, up to the end of the text. -/
theorem reads_definitions {ds : List Definition} {r : Reading}
    (h : definitions (.ofCursor k) = .ok (ds, r)) : ∃ k' pieces, r = .ofCursor k' ∧
      Laid k pieces k' ∧ Definition.Chain .reading ds pieces .eof ∧ k'.ahead = .eof := by
  unfold definitions Production.repeatWhile at h
  generalize hcollected : Production.collect _ _ _ = collected at h
  obtain ⟨ds', ending⟩ := collected
  cases ending with
  | error e => cases h
  | ok r' =>
    cases h
    obtain ⟨k', pieces, hlaid, hchain, -, hends, -⟩ := collect_definitions hcollected
    obtain ⟨rfl, hend⟩ := hends r rfl
    exact ⟨k', pieces, rfl, hlaid, hchain, hend⟩

end Reader

/-! ## Whole documents -/

namespace Document

/-- `pieces` are what a text is made of as the document `d`, up to the cursor `k`. -/
structure SpelledBy (text : String) (d : Document) (pieces : List Piece) (k : Cursor) : Prop where
  laid : Laid (.ofText text) pieces k
  spelled : Item.Spelled .reading (d.definitions.map Definition.item) pieces
  rest_eq : k.skipTrivia.rest = []
  span_eq : d.span = ⟨.start, k.skipTrivia.position⟩

/-- Nothing but a gap stands behind the last piece of a text. -/
theorem SpelledBy.gap_rest {text : String} {d : Document} {pieces : List Piece} {k : Cursor}
    (h : SpelledBy text d pieces k) : Gap k.rest [] := by
  obtain ⟨gap, hrest, hgap, -, -⟩ := k.gap_skipTrivia
  rw [h.rest_eq] at hrest hgap
  rwa [hrest, List.append_nil]

/-- The definitions of an accepted text stand in a row. -/
theorem chain_of_parse {text : String} {d : Document} (h : Document.parse text = .ok d) :
    ∃ pieces k, SpelledBy text d pieces k ∧
      Definition.Chain .reading d.definitions pieces .eof := by
  obtain ⟨-, r, hdefinitions, hspan⟩ := parse_eq_ok.mp h
  obtain ⟨k, pieces, rfl, hlaid, hchain, hend⟩ := Reader.reads_definitions hdefinitions
  have hrest : k.skipTrivia.rest = [] := Lexical.classify_eof_iff.mp hend
  refine ⟨pieces, k, ⟨hlaid, hchain.spelled, hrest, ?_⟩, hchain⟩
  rw [hspan, Reading.ofCursor, Scanner.ofCursor, hrest]
  rfl

/-- An accepted text is made of the pieces of its document. -/
theorem spelled_of_parse {text : String} {d : Document} (h : Document.parse text = .ok d) :
    ∃ pieces k, SpelledBy text d pieces k := by
  obtain ⟨pieces, k, hspelled, -⟩ := chain_of_parse h
  exact ⟨pieces, k, hspelled⟩

end Document

end GraphQLSyntax
