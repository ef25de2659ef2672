import GraphQLSyntax.Proofs.Grammar.Broken.Value
import GraphQLSyntax.Proofs.Grammar.Sound.Selection

/-!
# Selections that break off

* `Reader.breaks_arguments`, `Reader.breaks_directives`: what fields and fragments are given.
* `Reader.breaks_selection`: a selection, with a reader for the sets in it.
* `Reader.breaks_selectionSet`: a selection set. Only the sets of selections are refused where they
  are empty.
-/

namespace GraphQLSyntax

/-- A lexeme is shown where it stands. -/
theorem Terminal.LaidAt.failureSpan_eq {k : Cursor} {kind : Lexeme} {text : String}
    (h : (Terminal.lexeme kind text).LaidAt k) :
    (Scanner.ofCursor k.skipTrivia).failureSpan = k.spanOf (.lexeme kind text) := by
  have hne : text.toList ≠ [] := h.stands.chars_ne_nil
  rw [h.scanner_eq]
  unfold Scanner.failureSpan
  split
  · rename_i htext _
    exact absurd htext hne
  · rename_i htext _
    exact absurd htext hne
  · rfl

namespace Reader

variable {sets : Bool}

/-! ## Arguments and directives -/

theorem breaks_argumentValue : argumentValue.Breaks sets fun v items => items = [v.item] := by
  intro k
  refine BreaksFrom.lexeme_bind ?_
  split
  · refine (BreaksFrom.sigilName (c := '$')
      (fun t => (ArgumentValue.reference { t with type := some .variableName }).item)
      rfl (.inl rfl) spelled_reference).map ?_
    rintro t _ ⟨rfl, -⟩
    rfl
  · refine (breaks_value k).map ?_
    rintro v _ rfl
    rfl

theorem breaks_argument : argument.Breaks sets fun a items => items = [a.item] := by
  intro k
  refine BreaksFrom.spanned .argument true (U := fun build items => ∃ name value,
    name.IsPlainName ∧ build = (fun span => ⟨name, value, span⟩) ∧
      items = [name.item, .word .colon ":", value.item]) ?_ ?_
  · refine (BreaksFrom.name _).bind ?_ (ReadsFrom.name _) ?_
    · rintro name _ ⟨rfl, hname⟩
      exact ⟨_, _, name, default, hname, rfl, rfl⟩
    rintro name _ k₁ ⟨rfl, hname, -⟩
    refine (Breaks.word (c := ':') rfl _ k₁).bind ?_ (Reads.word (c := ':') rfl _ k₁) ?_
    · rintro colon _ rfl
      exact ⟨_, _, name, default, hname, rfl, rfl⟩
    rintro colon _ k₂ rfl
    refine (breaks_argumentValue k₂).map ?_
    rintro value _ rfl
    exact ⟨name, value, hname, rfl, rfl⟩
  · rintro _ _ span ⟨name, value, hname, rfl, rfl⟩
    refine ⟨⟨?_, .argument ⟨name, value, span⟩⟩, fun _ => rfl, rfl⟩
    cases value <;> simp [Node.Worded, Node.parts, hname.terminal_eq]

/-- Parts between parentheses, which may be left out around nothing. -/
theorem Breaks.inParentheses {α : Type} [Inhabited α] {item : Production α} {f : α → Item}
    {P : α → Prop} (h : item.read.Reads fun a items _ => items = [f a] ∧ P a)
    (hbreaks : item.read.Breaks sets fun a items => items = [f a])
    (hf : ∀ a, (f a).isLeaf = false) :
    (Reader.whenAt .parenOpen [] item.parenthesised).Breaks sets fun as written =>
      InParentheses (as.map f) written := by
  refine Breaks.whenAt fun k _ e he => ?_
  obtain ⟨as, hstops⟩ := Production.stops_enclosed (c := '(') (d := ')') rfl rfl (.inl rfl) rfl
    h hbreaks hf he
  exact ⟨as, _, .present _, hstops⟩

theorem breaks_arguments : arguments.Breaks sets fun as items =>
    InParentheses (as.map Argument.item) items :=
  Breaks.inParentheses (f := Argument.item) reads_argument breaks_argument fun _ => rfl

theorem breaks_directive : directive.Breaks sets fun d items => items = [d.item] := by
  intro k
  refine BreaksFrom.spanned .directive true (U := fun build items =>
    ∃ name arguments written, InParentheses (arguments.map Argument.item) written ∧
      build = (fun span => ⟨name, arguments, span⟩) ∧
      items = .part (.sigilName '@' name) :: written) ?_ ?_
  · refine (BreaksFrom.sigilName (c := '@') (fun t => .part (.sigilName '@' t)) rfl (.inr rfl)
      (fun name span => spelled_sigilName '@')).bind ?_ (Reads.sigilName (c := '@')
      (fun t => .part (.sigilName '@' t)) rfl (.inr rfl) (fun name span => spelled_sigilName '@')
      k) ?_
    · rintro name _ ⟨rfl, -⟩
      exact ⟨_, _, name, [], [], .absent, rfl, rfl⟩
    rintro name _ k₁ ⟨rfl, -⟩
    refine (breaks_arguments k₁).map ?_
    rintro arguments written harguments
    exact ⟨name, arguments, written, harguments, rfl, rfl⟩
  · rintro _ _ span ⟨name, arguments, written, harguments, rfl, rfl⟩
    exact ⟨⟨by simp [Node.Worded, Node.parts], .directive ⟨name, arguments, span⟩ harguments⟩,
      fun _ => rfl, rfl⟩

theorem breaks_directives : directives.Breaks sets fun ds items =>
    items = ds.map Directive.item := Production.breaks_whileAt reads_directive breaks_directive

/-! ## Selections -/

theorem breaks_aliased : aliased.Breaks sets fun second items => (∀ t ∈ second, t.IsPlainName) ∧
    items = second.toList.flatMap fun t => [.word .colon ":", t.item] := by
  refine Breaks.whenAt fun k _ => ?_
  refine (Breaks.word (c := ':') rfl _ k).bind ?_ (Reads.word (c := ':') rfl _ k) ?_
  · rintro colon _ rfl
    exact ⟨some someName, [someName.item], by simpa using isPlainName_someName, rfl⟩
  rintro colon _ k₁ rfl
  refine (BreaksFrom.name _).map ?_
  rintro name _ ⟨rfl, hname⟩
  exact ⟨by simpa using hname, rfl⟩

theorem breaks_onKeyword : onKeyword.Breaks sets fun _ items => items = [.keyword "on"] := by
  intro k
  refine BreaksFrom.keyword_bind ?_
  split
  · rename_i h
    refine (BreaksFrom.takeKeyword (fun _ => .keyword "on") h rfl (spelled_terminal _)).mono id ?_
    rintro t items ⟨hitems, -⟩
    exact hitems
  · exact .failUnexpected _ (b := someName) rfl

section

variable (directives : List Directive) (selections : List Selection) (span : Span)

theorem form_field {aliasName : Option Token} {name : Token} {arguments : List Argument}
    {written : List Item} (halias : ∀ t ∈ aliasName, t.IsPlainName) (hname : name.IsPlainName)
    (hwritten : InParentheses (arguments.map Argument.item) written) :
    (Node.selection (.field aliasName name arguments directives selections span)).Form .reading
      (aliasName.toList.flatMap (fun t => [t.item, .word .colon ":"]) ++ name.item ::
        (written ++ (directives.map Directive.item ++ fieldBody selections))) := by
  refine ⟨fun t ht => ?_, .field _ _ _ _ _ _ hwritten⟩
  have htoken : aliasName = some t ∨ t = name := by
    simpa [Node.parts, Node.selectionParts, eq_comm] using ht
  rcases htoken with htoken | rfl
  · exact (halias t htoken).terminal_eq
  · exact hname.terminal_eq

theorem form_fragmentSpread {name : Token} (hname : name.IsPlainName) :
    (Node.selection (.fragmentSpread name directives span)).Form .reading
      (.terminal .spread :: name.item :: directives.map Directive.item) := by
  refine ⟨fun t ht => ?_, .fragmentSpread _ _ _⟩
  obtain rfl : t = name := by simpa [Node.parts, Node.selectionParts] using ht
  exact hname.terminal_eq

theorem form_inlineFragment {typeCondition : Option Token}
    (hcondition : ∀ t ∈ typeCondition, t.IsPlainName) :
    (Node.selection (.inlineFragment typeCondition directives selections span)).Form .reading
      (.terminal .spread :: (typeCondition.toList.flatMap (fun t => [.keyword "on", t.item]) ++
        (directives.map Directive.item ++ Item.braced (selections.map Selection.item)))) := by
  refine ⟨fun t ht => ?_, .inlineFragment _ _ _ _⟩
  have htoken : typeCondition = some t := by
    simpa [Node.parts, Node.selectionParts] using ht
  exact (hcondition t htoken).terminal_eq

end

section

variable {nested : Reader (List Selection)} {depth : Nat}

/-- Breaks off in the selection sets that selections may have, none of which may be empty. -/
def BreaksSets (nested : Reader (List Selection)) : Prop :=
  nested.Breaks true fun selections items =>
    items = Item.braced (selections.map Selection.item) ∧ selections ≠ []

/-- What follows the names of a field. -/
theorem breaks_behindName {β : Type} (hbreaks : BreaksSets nested)
    (build : List Argument → List Directive → List Selection → β) :
    (arguments >>= fun as => directives >>= fun ds =>
      whenAt .curlyOpen [] nested >>= fun ss => pure (build as ds ss)).Breaks true fun b items =>
        ∃ as ds ss written, InParentheses (as.map Argument.item) written ∧ b = build as ds ss ∧
          items = written ++ (ds.map Directive.item ++ fieldBody ss) := by
  have hbody : (whenAt .curlyOpen [] nested).Breaks true fun ss items => items = fieldBody ss := by
    refine Breaks.whenAt fun k _ => (hbreaks k).mono id ?_
    rintro ss _ ⟨rfl, hne⟩
    rw [fieldBody, if_neg (by simpa using hne)]
  intro k
  refine (breaks_arguments k).bind ?_ (reads_arguments k) ?_
  · exact fun as written hwritten => ⟨_, [], as, [], [], written, hwritten, rfl, rfl⟩
  intro as written k₁ hwritten
  refine (breaks_directives k₁).bind ?_ (reads_directives k₁) ?_
  · rintro ds _ rfl
    exact ⟨_, [], as, ds, [], written, hwritten, rfl, rfl⟩
  rintro ds _ k₂ ⟨rfl, -⟩
  refine (hbody k₂).map ?_
  rintro ss _ rfl
  exact ⟨as, ds, ss, written, hwritten, rfl, rfl⟩

theorem breaks_field (hbreaks : BreaksSets nested) :
    (field nested).Breaks sets fun s items => items = [s.item] := by
  intro k
  refine BreaksFrom.spanned .selection true (U := fun build items =>
    ∃ aliasName name arguments directives selections written,
      (∀ t ∈ aliasName, t.IsPlainName) ∧ name.IsPlainName ∧
      InParentheses (arguments.map Argument.item) written ∧
      build = (fun span => .field aliasName name arguments directives selections span) ∧
      items = aliasName.toList.flatMap (fun t => [t.item, .word .colon ":"]) ++ name.item ::
        (written ++ (directives.map Directive.item ++ fieldBody selections))) ?_ ?_
  · refine (BreaksFrom.name _).bind ?_ (ReadsFrom.name _) ?_
    · rintro first _ ⟨rfl, hfirst⟩
      exact ⟨_, [], none, first, [], [], [], [], by simp, hfirst, .absent, rfl, rfl⟩
    rintro first _ k₁ ⟨rfl, hfirst, -⟩
    have halias : ∀ t ∈ some first, t.IsPlainName := by simpa using hfirst
    refine (breaks_aliased k₁).bind ?_ (reads_aliased k₁) ?_
    · rintro (_ | second) _ ⟨hsecond, rfl⟩
      · exact ⟨_, [], none, first, [], [], [], [], by simp, hfirst, .absent, rfl, rfl⟩
      · exact ⟨_, [], some first, second, [], [], [], [], halias, hsecond _ rfl, .absent, rfl, rfl⟩
    rintro second _ k₂ ⟨hsecond, rfl⟩
    refine (breaks_behindName hbreaks _ k₂).mono id ?_
    rintro _ _ ⟨as, ds, ss, written, hwritten, rfl, rfl⟩
    cases second with
    | none => exact ⟨none, first, as, ds, ss, written, by simp, hfirst, hwritten, rfl, rfl⟩
    | some name =>
      exact ⟨some first, name, as, ds, ss, written, halias, hsecond _ rfl, hwritten, rfl, rfl⟩
  · rintro _ _ span ⟨aliasName, name, as, ds, ss, written, halias, hname, hwritten, rfl, rfl⟩
    exact ⟨form_field ds ss span halias hname hwritten, fun _ => rfl, rfl⟩

theorem breaks_inlineFragment (hbreaks : BreaksSets nested) (typeCondition : Option Token) :
    (inlineFragment typeCondition nested).Breaks true fun build items =>
      ∃ directives selections,
        build = (fun span => .inlineFragment typeCondition directives selections span) ∧
        items = directives.map Directive.item ++
          Item.braced (selections.map Selection.item) := by
  intro k
  refine (breaks_directives k).bind ?_ (reads_directives k) ?_
  · rintro directives _ rfl
    exact ⟨_, _, directives, [], rfl, rfl⟩
  · rintro directives _ k₁ ⟨rfl, -⟩
    refine (hbreaks k₁).map ?_
    rintro selections _ ⟨rfl, -⟩
    exact ⟨directives, selections, rfl, rfl⟩

theorem breaks_spreadBody (hbreaks : BreaksSets nested) :
    (spreadBody nested).Breaks true fun build items => ∀ span,
      (Node.selection (build span)).Form .reading (.terminal .spread :: items) := by
  intro k
  have hon {name : Token} (hname : name.IsPlainName) (directives : List Directive)
      (selections : List Selection) (span : Span) :=
    form_inlineFragment directives selections span (by simpa using hname : ∀ t ∈ some name, _)
  refine BreaksFrom.keyword_bind ?_
  split
  · refine (breaks_onKeyword k).bind ?_ (reads_onKeyword k) ?_
    · rintro on _ rfl
      exact ⟨fun span => .inlineFragment (some someName) [] [] span, _,
        fun span => hon isPlainName_someName [] [] span⟩
    rintro on _ k₁ rfl
    refine (BreaksFrom.name _).bind ?_ (ReadsFrom.name _) ?_
    · rintro typeCondition _ ⟨rfl, hname⟩
      exact ⟨fun span => .inlineFragment (some typeCondition) [] [] span, _,
        fun span => hon hname [] [] span⟩
    rintro typeCondition _ k₂ ⟨rfl, hname, -⟩
    refine (breaks_inlineFragment hbreaks (some typeCondition) k₂).mono id ?_
    rintro _ _ ⟨directives, selections, rfl, rfl⟩ span
    exact hon hname directives selections span
  · refine BreaksFrom.lexeme_bind ?_
    split
    · refine (BreaksFrom.name _).bind ?_ (ReadsFrom.name _) ?_
      · rintro name _ ⟨rfl, hname⟩
        exact ⟨fun span => .fragmentSpread name [] span, [],
          fun span => form_fragmentSpread [] span hname⟩
      rintro name _ k₁ ⟨rfl, hname, -⟩
      refine (breaks_directives k₁).map ?_
      rintro directives _ rfl span
      exact form_fragmentSpread directives span hname
    · refine (breaks_inlineFragment hbreaks none k).mono id ?_
      rintro _ _ ⟨directives, selections, rfl, rfl⟩ span
      exact form_inlineFragment directives selections span (by simp)

theorem breaks_spread (hbreaks : BreaksSets nested) :
    (spread nested).Breaks sets fun s items => items = [s.item] := by
  intro k
  refine BreaksFrom.spanned .selection true (U := fun build items => ∀ span,
    (Node.selection (build span)).Form .reading items) ?_ ?_
  · refine (Breaks.spreadDots k).bind ?_ (Reads.spreadDots k) ?_
    · rintro _ _ rfl
      exact ⟨fun span => .fragmentSpread someName [] span, _,
        fun span => form_fragmentSpread [] span isPlainName_someName⟩
    rintro _ _ k₁ rfl
    exact breaks_spreadBody hbreaks k₁
  · exact fun build items span h => ⟨h span, fun _ => rfl, rfl⟩

theorem breaks_selection (hbreaks : BreaksSets nested) :
    (selection nested).Breaks sets fun s items => items = [s.item] := by
  intro k
  refine BreaksFrom.lexeme_bind ?_
  split
  · exact breaks_spread hbreaks k
  · exact breaks_field hbreaks k

end

/-- The set between two braces with nothing between them is one that some selection is missing in. -/
theorem stops_empty {k : Cursor} {opener : Token} {e : SyntaxError}
    (hlaid : (Terminal.lexeme .curlyOpen "\x7b").LaidAt k)
    (hopener : opener.span = k.spanOf (.lexeme .curlyOpen "\x7b"))
    (hclose : (k.behind (.lexeme .curlyOpen "\x7b")).ahead = .curlyClose)
    (he : failEmptySet opener.span (.ofCursor (k.behind (.lexeme .curlyOpen "\x7b"))) = .error e) :
    Item.Stops e true k (Item.braced ([default].map Selection.item)) := by
  have hcloser := Cursor.laidAt_word (c := '}') hclose rfl
  obtain rfl := Except.error.inj he
  rw [hopener]
  let left : Piece := ⟨.lexeme .curlyOpen "\x7b", k.spanOf (.lexeme .curlyOpen "\x7b")⟩
  let right : Piece := ⟨.lexeme .curlyClose "\x7d",
    (k.behind left.terminal).spanOf (.lexeme .curlyClose "\x7d")⟩
  have hleft : Item.Spelled .reading [.word .curlyOpen "\x7b"] [left] := spelled_terminal _ _
  have hopening : left.terminal.IsOpening := .inr (.inr rfl)
  have hemptied : Item.Emptied .reading ([] ++ Item.braced ([default].map Selection.item))
      ([] ++ [left, right]) left right := .braces .nil rfl rfl
  refine ⟨⟨[left], _, .front hleft, Laid.single hlaid, .of_start (Scanner.failureSpan_start _) nofun,
    ((SyntaxError.PointsBack.error _ _ _).withPointing List.mem_cons_self hopening _).withNote
      (by rintro span ⟨⟩)⟩, fun _ => ?_⟩
  exact .emptied hemptied ((Laid.single hlaid).append (Laid.single hcloser))
    ⟨⟨_, rfl⟩, ⟨"selection set opened here", _, rfl⟩, hcloser.failureSpan_eq⟩

/-- A selection set is left open, or one in it. Where it may not be empty, it is found to be so. -/
theorem breaks_braced {allowEmpty : Bool} {item : Production Selection} {depth : Nat}
    (hitem : item.read.Reads fun s items _ => items = [s.item] ∧ s.depth ≤ depth)
    (hbreaks : item.read.Breaks (!allowEmpty) fun s items => items = [s.item]) :
    (braced allowEmpty item).Breaks (!allowEmpty) fun selections items =>
      items = Item.braced (selections.map Selection.item) ∧
        (allowEmpty = false → selections ≠ []) := by
  intro k e he
  obtain ⟨selections, hne, hopen⟩ | ⟨opener, selections, pieces, k', hlaid, hopener, hpieces,
    hspelled, hclose, herror⟩ := Production.enclosed_error (c := '{') rfl rfl (.inr (.inr rfl))
      hitem hbreaks (fun _ => rfl) he
  · exact ⟨selections, _, ⟨rfl, fun _ => hne⟩, hopen _⟩
  · split at herror
    · rename_i hempty
      obtain ⟨hempty, hallow⟩ : selections.isEmpty = true ∧ allowEmpty = false := by
        simpa using hempty
      obtain rfl := List.isEmpty_iff.mp hempty
      subst hallow
      cases hspelled
      obtain rfl := Laid.nil_iff.mp hpieces
      exact ⟨[default], _, ⟨rfl, fun _ => List.cons_ne_nil _ _⟩,
        stops_empty hlaid hopener hclose herror⟩
    · rename_i hnonempty
      rcases bind_eq_error.mp herror with herror | ⟨-, -, -, ⟨⟩⟩
      exact ⟨selections, _, ⟨rfl, fun hallow => by simpa [hallow] using hnonempty⟩,
        Production.stops_closed hlaid hpieces hspelled hclose rfl herror⟩

theorem breaks_selectionSet (allowEmpty : Bool) (depth : Nat) :
    (Production.selectionSet allowEmpty depth).read.Breaks (!allowEmpty) fun selections items =>
      items = Item.braced (selections.map Selection.item) ∧
        (allowEmpty = false → selections ≠ []) := by
  induction depth generalizing allowEmpty with
  | zero =>
    refine fun k => BreaksFrom.lexeme_bind ?_
    split
    · exact .fail (.tooDeep _) (b := [default]) ⟨rfl, fun _ => List.cons_ne_nil _ _⟩
    · exact .failUnexpected _ (b := [default]) ⟨rfl, fun _ => List.cons_ne_nil _ _⟩
  | succ depth ih =>
    have hnested : ReadsSets (Production.selectionSet false depth).read depth := by
      refine (reads_selectionSet false depth).mono ?_
      rintro selections items k' ⟨hitems, hne, hdepth⟩
      exact ⟨hitems, hne rfl, hdepth⟩
    have hbreaks : BreaksSets (Production.selectionSet false depth).read := fun k =>
      (ih false k).mono id fun _ _ h => ⟨h.1, h.2 rfl⟩
    exact breaks_braced (reads_selection hnested) (breaks_selection hbreaks)

end Reader

end GraphQLSyntax
