import GraphQLSyntax.Proofs.Grammar.Wrapping
import GraphQLSyntax.Proofs.Print.Document
import GraphQLSyntax.Proofs.Tree.Moved

/-!
# Printed trees are spelled by their terminals

* `Terminal.StandsApart`: a terminal is read as what it is in front of a space, and at the end.
* `Item.Printed`: items without positions are spelled by terminals that stand apart.
* `Value.printed`, `Selection.printed`, `Definition.printed`: this holds of all that is well formed.
-/

namespace GraphQLSyntax

/-! ## Terminals -/

namespace Terminal

/-- A terminal is read as what it is in front of a space, and at the end of a text. -/
def StandsApart (t : Terminal) : Prop := ∀ rest, (∀ c ∈ rest.head?, c = ' ') → t.Stands rest

theorem standsApart_single {kind : Lexeme} {c : Char} (h : Lexical.single? c = some kind) :
    (lexeme kind (String.singleton c)).StandsApart := fun rest _ => stands_single h rest

theorem standsApart_name {text : String} (h : Lexical.IsName text.toList) :
    (lexeme .name text).StandsApart := by
  intro rest hrest
  refine ⟨Lexical.classify_name_append h fun c hc => ?_, rfl, by decide⟩
  rw [hrest c hc]
  rfl

theorem standsApart_keyword {text : String} (h : Lexical.IsName text.toList) :
    (keyword text).StandsApart := standsApart_name h

theorem standsApart_sigilName {sigil : Char} {text : String} (hsigil : sigil = '$' ∨ sigil = '@')
    (h : Lexical.IsName text.toList) : (sigilName sigil text).StandsApart :=
  fun rest hrest => ⟨hsigil, (standsApart_name h rest hrest).1⟩

theorem standsApart_spread : spread.StandsApart := by
  intro rest hrest hhead
  exact absurd (hrest _ hhead) (by decide)

theorem standsApart_literal {kind : Lexeme} {text : String}
    (hkind : kind ∈ [.int, .float, .string, .blockString])
    (h : Lexical.classify text.toList = (kind, text.toList)) :
    (lexeme kind text).StandsApart := by
  intro rest hrest
  refine ⟨Lexical.classify_literal_append hkind h (fun c hc => ?_) fun hquote => ?_, ?_, ?_⟩
  · rw [hrest c hc]
    decide
  · exact absurd (hrest _ hquote) (by decide)
  · simp only [List.mem_cons, List.not_mem_nil, or_false] at hkind
    rcases hkind with rfl | rfl | rfl | rfl <;> rfl
  · simp only [List.mem_cons, List.not_mem_nil, or_false] at hkind
    rcases hkind with rfl | rfl | rfl | rfl <;> decide

theorem standsApart_object {text : String} {body : List Char} (htext : text.toList = '{' :: body)
    (h : Lexical.braced 0 body = (.object, body)) : (object text).StandsApart := by
  intro rest _
  refine ⟨body, htext, ?_⟩
  rw [Lexical.braced_append (congrArg Prod.fst h), h]

end Terminal

/-- A token whose text is whole stands apart. -/
theorem Token.IsWhole.standsApart {t : Token} (h : t.IsWhole) : t.terminal.StandsApart := by
  obtain ⟨lexeme, text, span, type⟩ := t
  unfold IsWhole at h
  unfold Token.terminal
  cases lexeme
  case name => exact Terminal.standsApart_name h
  case enum => exact Terminal.standsApart_name h
  case query => exact Terminal.standsApart_name h
  case mutation => exact Terminal.standsApart_name h
  case subscription => exact Terminal.standsApart_name h
  case int => exact Terminal.standsApart_literal (by simp) h
  case float => exact Terminal.standsApart_literal (by simp) h
  case string => exact Terminal.standsApart_literal (by simp) h
  case blockString => exact Terminal.standsApart_literal (by simp) h
  case object =>
    obtain ⟨body, htext, hbody⟩ := h
    exact Terminal.standsApart_object htext hbody
  all_goals exact absurd h id

/-! ## Items -/

/-- A piece without a position. -/
def Piece.blank (t : Terminal) : Piece := ⟨t, ⟨.start, .start⟩⟩

theorem covers_blank {ts : List Terminal} (h : ts ≠ []) :
    Covers ⟨.start, .start⟩ (ts.map Piece.blank) := by
  obtain ⟨t, ts, rfl⟩ := List.exists_cons_of_ne_nil h
  refine ⟨rfl, ?_⟩
  rw [List.getLast?_map, List.getLast?_cons]
  rfl

namespace Item

/-- Items are spelled by terminals without positions, all of which stand apart. -/
structure Printed (items : List Item) (ts : List Terminal) : Prop where
  spelled : Item.Spelled .printing items (ts.map Piece.blank)
  standsApart : ∀ t ∈ ts, t.StandsApart

namespace Printed

variable {items items' : List Item} {ts ts' : List Terminal} {t : Terminal} {α : Type}

theorem nil : Printed [] [] := ⟨.nil, by simp⟩

theorem append (h : Printed items ts) (h' : Printed items' ts') :
    Printed (items ++ items') (ts ++ ts') := by
  refine ⟨?_, fun t ht => ?_⟩
  · rw [List.map_append]
    exact h.spelled.append h'.spelled
  · rcases List.mem_append.mp ht with ht | ht
    · exact h.standsApart t ht
    · exact h'.standsApart t ht

theorem terminal (ht : t.StandsApart) (h : Printed items ts) :
    Printed (.terminal t :: items) (t :: ts) := by
  refine ⟨.terminal t _ h.spelled, fun t' ht' => ?_⟩
  rcases List.mem_cons.mp ht' with rfl | ht'
  · exact ht
  · exact h.standsApart t' ht'

theorem terminals (h : ∀ t ∈ ts, t.StandsApart) : Printed (ts.map .terminal) ts := by
  refine ⟨Item.Spelled.terminals_iff.mpr ?_, h⟩
  rw [List.map_map]
  exact List.map_id ts

theorem cons {item : Item} (hitem : Printed [item] ts) (h : Printed items ts') :
    Printed (item :: items) (ts ++ ts') := hitem.append h

/-- Trees in a row, each moved. -/
theorem flatMap {as : List α} {m : α → α} {f : α → Item} {terminals : α → List Terminal}
    (h : ∀ a ∈ as, Printed [f (m a)] (terminals a)) :
    Printed ((as.map m).map f) (as.flatMap terminals) := by
  induction as with
  | nil => exact nil
  | cons a as ih =>
    rw [List.map_cons, List.map_cons, List.flatMap_cons]
    exact (h a (by simp)).cons (ih fun b hb => h b (by simp [hb]))

theorem ne_nil {item : Item} (h : Printed [item] ts) : ts ≠ [] := by
  rintro rfl
  have hspelled := h.spelled
  rw [List.map_nil] at hspelled
  generalize hpieces : ([] : List Piece) = pieces at hspelled
  cases hspelled with
  | terminal => cases hpieces
  | part hp => exact hp.ne_nil (List.append_eq_nil_iff.mp hpieces.symm).1

theorem braced (h : Printed items ts) : Printed (Item.braced items) (Terminal.braced ts) :=
  .terminal (Terminal.standsApart_single (c := '{') rfl)
    (h.append (.terminal (Terminal.standsApart_single (c := '}') rfl) nil))

theorem parenthesised (h : Printed items ts) :
    Printed (Item.parenthesised items)
      (.lexeme .parenOpen "(" :: (ts ++ [.lexeme .parenClose ")"])) :=
  .terminal (Terminal.standsApart_single (c := '(') rfl)
    (h.append (.terminal (Terminal.standsApart_single (c := ')') rfl) nil))

/-- Trees between parentheses, which are left out around nothing. -/
theorem inParentheses {as : List α} {m : α → α} {f : α → Item} {terminals : α → List Terminal}
    (h : ∀ a ∈ as, Printed [f (m a)] (terminals a)) :
    ∃ written, InParentheses ((as.map m).map f) written ∧
      Printed written (Terminal.parenthesised (as.flatMap terminals)) := by
  cases as with
  | nil => exact ⟨[], .absent, nil⟩
  | cons a as =>
    have hne : (a :: as).flatMap terminals ≠ [] := by
      rw [List.flatMap_cons]
      exact List.append_ne_nil_of_left_ne_nil (h a (by simp)).ne_nil _
    refine ⟨_, .present _, ?_⟩
    rw [Terminal.parenthesised, if_neg (by simpa using hne)]
    exact parenthesised (flatMap h)

/-- A token is printed as its terminal. -/
theorem token {t : Token} (h : t.IsWhole) :
    Printed [(t.map Position.forget).item] [t.terminal] := by
  refine ⟨.single (.token (t.map Position.forget) _ (covers_single.mpr rfl)), ?_⟩
  intro t' ht'
  rw [List.mem_singleton.mp ht']
  exact h.standsApart

theorem sigilName {sigil : Char} {t : Token} (hsigil : sigil = '$' ∨ sigil = '@')
    (h : Lexical.IsName t.text.toList) :
    Printed [.part (.sigilName sigil (t.map Position.forget))] [.sigilName sigil t.text] := by
  refine ⟨.single (.sigilName sigil (t.map Position.forget) _ (covers_single.mpr rfl)), ?_⟩
  intro t' ht'
  rw [List.mem_singleton.mp ht']
  exact Terminal.standsApart_sigilName hsigil h

/-- A node is printed as the items of one of its rules. -/
theorem node {n : Node} (hn : n.WellFormed) (hrule : Rule .printing (n.map Position.forget) items)
    (h : Printed items ts) : Printed [.part (.node (n.map Position.forget))] ts := by
  refine ⟨.single (.node hn.map hrule h.spelled fun span hspan => ?_), h.standsApart⟩
  rw [Node.span?_map] at hspan
  obtain ⟨_, -, rfl⟩ := Option.map_eq_some_iff.mp hspan
  refine covers_blank ?_
  rintro rfl
  exact hrule.pieces_ne_nil h.spelled rfl

end Printed

end Item

/-! ## Types and values -/

theorem Wrapping.marks_marks (nonNull : Bool) : Marks nonNull (marks nonNull) := by
  cases nonNull <;> simp [Marks, marks]

/-- The brackets and marks that are printed behind a name stand for its lists. -/
theorem Wrapping.closed_closings (w : Wrapping) : w.Closed w.closings := by
  induction w with
  | named nonNull => exact .named (marks_marks nonNull)
  | list nonNull items ih => exact .list ih (marks_marks nonNull)

/-- Opening brackets are terminals. -/
theorem Item.openings_eq (brackets : Nat) :
    openings brackets = (Terminal.openings brackets).map .terminal := by
  cases brackets with
  | zero => rfl
  | succ brackets =>
    rw [openings, Terminal.openings, List.map_cons, List.map_replicate]
    rfl

/-- Opening brackets are read as what they are, whatever follows. -/
theorem Terminal.stands_openings {lists : Nat} :
    ∀ t ∈ openings lists, ∀ rest, t.Stands rest := by
  intro t ht rest
  cases lists with
  | zero => cases ht
  | succ lists =>
    rcases List.mem_cons.mp ht with rfl | ht
    · exact stands_single (c := '[') rfl rest
    · rw [List.eq_of_mem_replicate ht]
      exact .inl rfl

/-- So are the marks behind a name. -/
theorem Terminal.stands_marks {marks : List Char} (h : ∀ c ∈ marks, c = ']' ∨ c = '!') :
    ∀ t ∈ marks.map mark, ∀ rest, t.Stands rest := by
  intro t ht rest
  obtain ⟨c, hc, rfl⟩ := List.mem_map.mp ht
  exact .inr (h c hc)

theorem Item.printed_openings (brackets : Nat) :
    Item.Printed (Item.openings brackets) (Terminal.openings brackets) := by
  rw [openings_eq]
  exact .terminals fun t ht rest _ => Terminal.stands_openings t ht rest

theorem Item.printed_marks {marks : List Char} (h : ∀ c ∈ marks, c = ']' ∨ c = '!') :
    Item.Printed (marks.map fun c => .terminal (.mark c)) (marks.map .mark) := by
  rw [Item.map_mark]
  exact .terminals fun t ht rest _ => Terminal.stands_marks h t ht rest

/-- A type is spelled by its terminals. -/
theorem TypeRef.printed {t : TypeRef} (h : (Part.node (.typeRef t)).WellFormedWithin) :
    Item.Printed [(t.map Position.forget).item] t.terminals := by
  have hname := (h.part (q := .token t.name) (by simp [Part.parts, Node.parts])).self
  have hclosed := t.wrapping.closed_closings
  have hrule := Rule.typeRef (σ := .printing) (t.map Position.forget) rfl hclosed
  exact .node (n := .typeRef t) h.self hrule (.append (Item.printed_openings t.dimensions)
    (.cons (.token hname) (Item.printed_marks hclosed.mem)))

mutual

/-- A value is spelled by its terminals. -/
theorem Value.printed (v : Value) (h : (Part.node (.value v)).WellFormedWithin) :
    Item.Printed [(v.map Position.forget).item] v.terminals := by
  match v with
  | .boolean true =>
    exact .node (n := .value (.boolean true)) trivial .true
      (.terminal (Terminal.standsApart_keyword (by decide)) .nil)
  | .boolean false =>
    exact .node (n := .value (.boolean false)) trivial .false
      (.terminal (Terminal.standsApart_keyword (by decide)) .nil)
  | .null =>
    exact .node (n := .value .null) trivial .null
      (.terminal (Terminal.standsApart_keyword (by decide)) .nil)
  | .scalar token =>
    have htoken := (h.part (q := .token token)
      (by simp [Part.parts, Node.parts, Node.valueParts])).self
    exact .node (n := .value (.scalar token)) h.self (.scalar _) (.token htoken)
  | .list items span =>
    have hitems := Value.printedAll items fun v hv => h.part
      (by simp [Part.parts, Node.parts, Node.valueParts, hv])
    exact .node (n := .value (.list items span)) h.self (.list _ _)
      (.terminal (Terminal.standsApart_single (c := '[') rfl)
        (hitems.append (.terminal (Terminal.standsApart_single (c := ']') rfl) .nil)))

theorem Value.printedAll (items : List Value)
    (h : ∀ v ∈ items, (Part.node (.value v)).WellFormedWithin) :
    Item.Printed ((Value.mapAll Position.forget items).map Value.item)
      (Value.terminalsAll items) := by
  match items with
  | [] => exact .nil
  | v :: rest =>
    exact (Value.printed v (h v (by simp))).append
      (Value.printedAll rest fun w hw => h w (by simp [hw]))

end

/-! ## Selections -/

/-- An argument is spelled by its terminals. -/
theorem Argument.printed {a : Argument} (h : (Part.node (.argument a)).WellFormedWithin) :
    Item.Printed [(a.map Position.forget).item] a.terminals := by
  obtain ⟨name, value, span⟩ := a
  have hname := (h.part (q := .token name) (by simp [Part.parts, Node.parts])).self
  have hvalue : Item.Printed [(value.map Position.forget).item] value.terminals := by
    cases value with
    | literal v => exact v.printed (h.part (by simp [Part.parts, Node.parts]))
    | reference t =>
      have ht := h.part (q := .node (.reference t)) (by simp [Part.parts, Node.parts])
      have htext := (ht.part (q := .sigilName '$' t) (by simp [Part.parts, Node.parts])).self
      exact .node (n := .reference t) ht.self (.reference _) (.sigilName (.inl rfl) htext)
  exact .node (n := .argument ⟨name, value, span⟩) h.self (.argument _)
    (.cons (.token hname) (.terminal (Terminal.standsApart_single (c := ':') rfl) hvalue))

/-- Arguments are spelled by their terminals, in parentheses. -/
theorem Argument.printedAll {arguments : List Argument}
    (h : ∀ a ∈ arguments, (Part.node (.argument a)).WellFormedWithin) :
    ∃ written, InParentheses ((arguments.map (Argument.map Position.forget)).map Argument.item)
        written ∧
      Item.Printed written (Terminal.parenthesised (arguments.flatMap Argument.terminals)) :=
  Item.Printed.inParentheses fun a ha => Argument.printed (h a ha)

/-- A directive is spelled by its terminals. -/
theorem Directive.printed {d : Directive} (h : (Part.node (.directive d)).WellFormedWithin) :
    Item.Printed [(d.map Position.forget).item] d.terminals := by
  have hname := (h.part (q := .sigilName '@' d.name) (by simp [Part.parts, Node.parts])).self
  have harguments (a : Argument) (ha : a ∈ d.arguments) :
      (Part.node (.argument a)).WellFormedWithin := h.part (by simp [Part.parts, Node.parts, ha])
  obtain ⟨written, hwritten, harguments⟩ := Argument.printedAll harguments
  exact .node (n := .directive d) h.self (.directive _ hwritten)
    (.cons (.sigilName (.inr rfl) hname) harguments)

theorem Directive.printedAll {directives : List Directive}
    (h : ∀ d ∈ directives, (Part.node (.directive d)).WellFormedWithin) :
    Item.Printed ((directives.map (Directive.map Position.forget)).map Directive.item)
      (directives.flatMap Directive.terminals) :=
  .flatMap fun d hd => Directive.printed (h d hd)

theorem Selection.printed_fieldBody {selections : List Selection} {ts : List Terminal}
    (h : Item.Printed ((Selection.mapAll Position.forget selections).map Selection.item) ts) :
    Item.Printed (fieldBody (Selection.mapAll Position.forget selections))
      (if selections.isEmpty then [] else Terminal.braced ts) := by
  cases selections with
  | nil => exact .nil
  | cons s rest => exact h.braced

mutual

/-- A selection is spelled by its terminals. -/
theorem Selection.printed (s : Selection) (h : (Part.node (.selection s)).WellFormedWithin) :
    Item.Printed [(s.map Position.forget).item] s.terminals := by
  match s with
  | .field aliasName name arguments directives selections span =>
    have hname := (h.part (q := .token name)
      (by simp [Part.parts, Node.parts, Node.selectionParts])).self
    have harguments (a : Argument) (ha : a ∈ arguments) :
        (Part.node (.argument a)).WellFormedWithin :=
      h.part (by simp [Part.parts, Node.parts, Node.selectionParts, ha])
    have hdirectives (d : Directive) (hd : d ∈ directives) :
        (Part.node (.directive d)).WellFormedWithin :=
      h.part (by simp [Part.parts, Node.parts, Node.selectionParts, hd])
    have hselections := Selection.printedAll selections fun s hs =>
      h.part (by simp [Part.parts, Node.parts, Node.selectionParts, hs])
    have halias : Item.Printed ((aliasName.map (Token.map Position.forget)).toList.flatMap
          fun t => [t.item, .word .colon ":"])
        (aliasName.toList.flatMap fun t => [t.terminal, .lexeme .colon ":"]) := by
      cases aliasName with
      | none => exact .nil
      | some t =>
        have ht := (h.part (q := .token t)
          (by simp [Part.parts, Node.parts, Node.selectionParts])).self
        rw [Option.map_some, Option.toList_some, Option.toList_some, List.flatMap_singleton,
          List.flatMap_singleton]
        exact (Item.Printed.token ht).cons
          (.terminal (Terminal.standsApart_single (c := ':') rfl) .nil)
    obtain ⟨written, hwritten, harguments⟩ := Argument.printedAll harguments
    exact .node (n := .selection (.field aliasName name arguments directives selections span))
      h.self (.field _ _ _ _ _ _ hwritten) (.append halias (.cons (.token hname)
        (harguments.append ((Directive.printedAll hdirectives).append
          (Selection.printed_fieldBody hselections)))))
  | .fragmentSpread name directives span =>
    have hname := (h.part (q := .token name)
      (by simp [Part.parts, Node.parts, Node.selectionParts])).self
    have hdirectives (d : Directive) (hd : d ∈ directives) :
        (Part.node (.directive d)).WellFormedWithin :=
      h.part (by simp [Part.parts, Node.parts, Node.selectionParts, hd])
    exact .node (n := .selection (.fragmentSpread name directives span)) h.self
      (.fragmentSpread _ _ _) (.terminal Terminal.standsApart_spread
        (.cons (.token hname) (Directive.printedAll hdirectives)))
  | .inlineFragment typeCondition directives selections span =>
    have hdirectives (d : Directive) (hd : d ∈ directives) :
        (Part.node (.directive d)).WellFormedWithin :=
      h.part (by simp [Part.parts, Node.parts, Node.selectionParts, hd])
    have hselections := Selection.printedAll selections fun s hs =>
      h.part (by simp [Part.parts, Node.parts, Node.selectionParts, hs])
    have htype : Item.Printed ((typeCondition.map (Token.map Position.forget)).toList.flatMap
          fun t => [.keyword "on", t.item])
        (typeCondition.toList.flatMap fun t => [.keyword "on", t.terminal]) := by
      cases typeCondition with
      | none => exact .nil
      | some t =>
        have ht := (h.part (q := .token t)
          (by simp [Part.parts, Node.parts, Node.selectionParts])).self
        exact .terminal (Terminal.standsApart_keyword (by decide)) (.token ht)
    exact .node (n := .selection (.inlineFragment typeCondition directives selections span))
      h.self (.inlineFragment _ _ _ _) (.terminal Terminal.standsApart_spread
        (htype.append ((Directive.printedAll hdirectives).append hselections.braced)))

theorem Selection.printedAll (selections : List Selection)
    (h : ∀ s ∈ selections, (Part.node (.selection s)).WellFormedWithin) :
    Item.Printed ((Selection.mapAll Position.forget selections).map Selection.item)
      (Selection.terminalsAll selections) := by
  match selections with
  | [] => exact .nil
  | s :: rest =>
    exact (Selection.printed s (h s (by simp))).append
      (Selection.printedAll rest fun t ht => h t (by simp [ht]))

end

theorem Selection.printed_map {selections : List Selection}
    (h : ∀ s ∈ selections, (Part.node (.selection s)).WellFormedWithin) :
    Item.Printed (Item.braced ((selections.map (Selection.map Position.forget)).map Selection.item))
      (Terminal.braced (Selection.terminalsAll selections)) := by
  rw [← Selection.mapAll_eq]
  exact (Selection.printedAll selections h).braced

/-! ## Definitions -/

/-- The definition of a variable is spelled by its terminals. -/
theorem VariableDefinition.printed {v : VariableDefinition}
    (h : (Part.node (.variableDefinition v)).WellFormedWithin) :
    Item.Printed [(v.map Position.forget).item] v.terminals := by
  obtain ⟨name, type, default, directives, span⟩ := v
  have hname := (h.part (q := .sigilName '$' name) (by simp [Part.parts, Node.parts])).self
  have htype := TypeRef.printed (t := type) (h.part (by simp [Part.parts, Node.parts]))
  have hdirectives (d : Directive) (hd : d ∈ directives) :
      (Part.node (.directive d)).WellFormedWithin := h.part (by simp [Part.parts, Node.parts, hd])
  have hdefault : Item.Printed ((default.map (Value.map Position.forget)).toList.flatMap
        fun x => [.word .equals "=", x.item])
      (default.toList.flatMap fun x => .lexeme .equals "=" :: x.terminals) := by
    cases default with
    | none => exact .nil
    | some x =>
      rw [Option.map_some, Option.toList_some, Option.toList_some, List.flatMap_singleton,
        List.flatMap_singleton]
      exact .terminal (Terminal.standsApart_single (c := '=') rfl)
        (x.printed (h.part (by simp [Part.parts, Node.parts])))
  exact .node (n := .variableDefinition ⟨name, type, default, directives, span⟩) h.self
    (.variableDefinition _) (.cons (.sigilName (.inl rfl) hname)
      (.terminal (Terminal.standsApart_single (c := ':') rfl)
        (.cons htype (hdefault.append (Directive.printedAll hdirectives)))))

/-- An operation is spelled by its terminals. -/
theorem Operation.printed {o : Operation} (h : (Part.node (.operation o)).WellFormedWithin) :
    Item.Printed [(Definition.operation (o.map Position.forget)).item]
      (Definition.operation o).terminals := by
  obtain ⟨header, selections, span⟩ := o
  have hselections := Selection.printed_map fun s (hs : s ∈ selections) =>
    h.part (by simp [Part.parts, Node.parts, hs])
  cases header with
  | none =>
    exact .node (n := .operation ⟨none, selections, span⟩) h.self (.shorthand _ _) hselections
  | some header =>
    have hparts {q : Part} (hq : q ∈ (Node.operation ⟨some header, selections, span⟩).parts) :
        q.WellFormedWithin := h.part hq
    have hkeyword := (hparts (q := .token header.keyword)
      (by simp [Node.parts, Operation.keyword])).self
    have hvariables (v : VariableDefinition) (hv : v ∈ header.variableDefinitions) :=
      VariableDefinition.printed (hparts (q := .node (.variableDefinition v))
        (by simp [Node.parts, Operation.variableDefinitions, hv]))
    have hdirectives (d : Directive) (hd : d ∈ header.directives) :
        (Part.node (.directive d)).WellFormedWithin :=
      hparts (by simp [Node.parts, Operation.directives, hd])
    have hname : Item.Printed ((header.name.map (Token.map Position.forget)).toList.map Token.item)
        (header.name.toList.map Token.terminal) := by
      cases hheader : header.name with
      | none => exact .nil
      | some t => exact .token (hparts (q := .token t)
          (by simp [Node.parts, Operation.name, hheader])).self
    obtain ⟨written, hwritten, hvariables⟩ := Item.Printed.inParentheses
      (m := VariableDefinition.map Position.forget) (f := VariableDefinition.item) hvariables
    exact .node (n := .operation ⟨some header, selections, span⟩) h.self
      (.operation _ _ _ hwritten (.present _)) (.cons (.token hkeyword) (hname.append
        (hvariables.append ((Directive.printedAll hdirectives).append hselections))))

/-- A fragment is spelled by its terminals. -/
theorem Fragment.printed {f : Fragment} (h : (Part.node (.fragment f)).WellFormedWithin) :
    Item.Printed [(Definition.fragment (f.map Position.forget)).item]
      (Definition.fragment f).terminals := by
  obtain ⟨name, typeCondition, directives, selections, span⟩ := f
  have hname := (h.part (q := .token name) (by simp [Part.parts, Node.parts])).self
  have hcondition := (h.part (q := .token typeCondition) (by simp [Part.parts, Node.parts])).self
  have hdirectives (d : Directive) (hd : d ∈ directives) :
      (Part.node (.directive d)).WellFormedWithin := h.part (by simp [Part.parts, Node.parts, hd])
  have hselections := Selection.printed_map fun s (hs : s ∈ selections) =>
    h.part (by simp [Part.parts, Node.parts, hs])
  exact .node (n := .fragment ⟨name, typeCondition, directives, selections, span⟩) h.self
    (.fragment _ (.present _)) (.terminal (Terminal.standsApart_keyword (by decide))
      (.cons (.token hname) (.terminal (Terminal.standsApart_keyword (by decide))
        (.cons (.token hcondition) ((Directive.printedAll hdirectives).append hselections)))))

/-- A document is spelled by its terminals. -/
theorem Document.printed {d : Document} (h : d.WellFormed) :
    Item.Printed (d.erased.definitions.map Definition.item) d.terminals := by
  refine Item.Printed.flatMap fun x hx => ?_
  have hx := h (.node x.node) (List.mem_map_of_mem hx)
  cases x with
  | operation o => exact Operation.printed hx
  | fragment f => exact Fragment.printed hx

end GraphQLSyntax
