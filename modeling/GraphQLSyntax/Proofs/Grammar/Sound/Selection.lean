import GraphQLSyntax.Proofs.Grammar.Sound.Value

/-!
# Selections are read as they are written

* `Reader.reads_arguments`, `Reader.reads_directives`: what fields and fragments are given.
* `Reader.reads_field`, `Reader.reads_spread`: a selection, with a reader for the sets in it.
* `Reader.reads_selectionSet`: a selection set, which nests no deeper than it may.
-/

namespace GraphQLSyntax

namespace Reader

variable {k : Cursor}

/-! ## Arguments and directives -/

theorem spelled_reference (name : String) (span : Span) :
    Item.Spelled .reading
      [(ArgumentValue.reference ⟨.name, name, span, some .variableName⟩).item]
      [⟨.sigilName '$' name, span⟩] := by
  refine .single (.node ⟨rfl, rfl⟩ (.reference _) (spelled_sigilName '$') ?_)
  rintro _ ⟨⟩
  exact covers_single.mpr rfl

theorem reads_argumentValue : argumentValue.Reads fun v items _ => items = [v.item] := by
  intro k
  refine ReadsFrom.lexeme_bind ?_
  split
  · refine (Reads.sigilName (c := '$')
      (fun t => (ArgumentValue.reference { t with type := some .variableName }).item)
      rfl (.inl rfl) spelled_reference k).bind ?_
    rintro t _ k' ⟨rfl, -⟩
    exact ReadsFrom.pure rfl
  · refine (reads_value k).bind ?_
    rintro v _ k' rfl
    exact ReadsFrom.pure rfl

theorem reads_argument : argument.Reads fun a items _ => items = [a.item] ∧ True := by
  intro k
  refine ReadsFrom.spanned .argument (T := fun build items _ => ∃ name value,
    name.IsPlainName ∧ build = (fun span => ⟨name, value, span⟩) ∧
      items = [name.item, .word .colon ":", value.item]) ?_ ?_
  · refine (ReadsFrom.name _).bind ?_
    rintro name _ k₁ ⟨rfl, hname, -⟩
    refine (Reads.word (c := ':') rfl _ k₁).bind ?_
    rintro colon _ k₂ rfl
    refine (reads_argumentValue k₂).bind ?_
    rintro value _ k₃ rfl
    exact ReadsFrom.pure ⟨name, value, hname, rfl, rfl⟩
  · rintro _ _ k' span ⟨name, value, hname, rfl, rfl⟩
    exact ⟨hname, .argument ⟨name, value, span⟩, rfl, rfl, trivial⟩

/-- Arguments are read as they are written between parentheses. -/
theorem reads_arguments : arguments.Reads fun as items _ =>
    InParentheses (as.map Argument.item) items := Production.reads_inParentheses reads_argument

theorem reads_directive : directive.Reads fun d items _ => items = [d.item] ∧ True := by
  intro k
  refine ReadsFrom.spanned .directive (T := fun build items _ => ∃ name arguments written,
    name.IsPlainName ∧ InParentheses (arguments.map Argument.item) written ∧
      build = (fun span => ⟨name, arguments, span⟩) ∧
      items = .part (.sigilName '@' name) :: written) ?_ ?_
  · refine (Reads.sigilName (c := '@') (fun t => .part (.sigilName '@' t)) rfl (.inr rfl)
      (fun name span => spelled_sigilName '@') k).bind ?_
    rintro name _ k₁ ⟨rfl, hname⟩
    refine (reads_arguments k₁).bind ?_
    rintro arguments written k₂ harguments
    refine ReadsFrom.pure ⟨name, arguments, written, hname, harguments, rfl, ?_⟩
    rw [List.append_nil, List.singleton_append]
  · rintro _ _ k' span ⟨name, arguments, written, hname, harguments, rfl, rfl⟩
    exact ⟨hname, .directive ⟨name, arguments, span⟩ harguments, rfl, rfl, trivial⟩

/-- Directives are read as they are written, and all that stand there are read. -/
theorem reads_directives : directives.Reads fun ds items k' =>
    items = ds.map Directive.item ∧ k'.ahead ≠ .atSign := by
  refine (Production.reads_whileAt reads_directive).mono ?_
  rintro ds _ k' ⟨rfl, -, hahead⟩
  exact ⟨rfl, hahead⟩

/-! ## Fields -/

theorem reads_aliased : aliased.Reads fun second items _ =>
    (∀ t ∈ second, t.IsPlainName) ∧
      items = second.toList.flatMap fun t => [.word .colon ":", t.item] := by
  refine Reads.whenAt (fun k _ => ?_) fun _ _ => ⟨by simp, rfl⟩
  refine (Reads.word (c := ':') rfl _ k).bind ?_
  rintro colon _ k₁ rfl
  refine (ReadsFrom.name _).bind ?_
  rintro name _ k₂ ⟨rfl, hname, -⟩
  exact ReadsFrom.pure ⟨by simpa using hname, rfl⟩

section

variable {nested : Reader (List Selection)} {depth : Nat}

/-- Reads the selection sets that selections may have. -/
def ReadsSets (nested : Reader (List Selection)) (depth : Nat) : Prop :=
  nested.Reads fun selections items _ => items = Item.braced (selections.map Selection.item) ∧
    selections ≠ [] ∧ Selection.setDepth selections ≤ depth

theorem reads_field (hnested : ReadsSets nested depth) : (field nested).Reads fun s items _ =>
    items = [s.item] ∧ s.depth ≤ depth := by
  intro k
  refine ReadsFrom.spanned .selection (T := fun build items _ =>
    ∃ aliasName name arguments directives selections written,
      (∀ t ∈ aliasName, t.IsPlainName) ∧ name.IsPlainName ∧
      InParentheses (arguments.map Argument.item) written ∧
      (selections ≠ [] → Selection.setDepth selections ≤ depth) ∧
      build = (fun span => .field aliasName name arguments directives selections span) ∧
      items = aliasName.toList.flatMap (fun t => [t.item, .word .colon ":"]) ++ name.item ::
        (written ++ (directives.map Directive.item ++ fieldBody selections))) ?_ ?_
  · refine (ReadsFrom.name _).bind ?_
    rintro first _ k₁ ⟨rfl, hfirst, -⟩
    refine (reads_aliased k₁).bind ?_
    rintro second _ k₂ ⟨hsecond, rfl⟩
    refine (reads_arguments k₂).bind ?_
    rintro arguments written k₃ harguments
    refine (reads_directives k₃).bind ?_
    rintro directives _ k₄ ⟨rfl, -⟩
    have hbody : (whenAt .curlyOpen [] nested).Reads fun selections items _ =>
        items = fieldBody selections ∧
          (selections ≠ [] → Selection.setDepth selections ≤ depth) := by
      refine Reads.whenAt (fun k _ => (hnested k).mono ?_) fun _ _ =>
        ⟨rfl, fun h => absurd rfl h⟩
      rintro selections _ k' ⟨rfl, hne, hdepth⟩
      refine ⟨?_, fun _ => hdepth⟩
      rw [fieldBody, if_neg (by simpa using hne)]
    refine (hbody k₄).bind ?_
    rintro selections _ k₅ ⟨rfl, hdepth⟩
    refine ReadsFrom.pure ?_
    cases second with
    | none =>
      refine ⟨none, first, arguments, directives, selections, written, by simp, hfirst,
        harguments, hdepth, rfl, ?_⟩
      simp
    | some name =>
      refine ⟨some first, name, arguments, directives, selections, written,
        by simpa using hfirst, hsecond name rfl, harguments, hdepth, rfl, ?_⟩
      simp
  · rintro _ _ k' span ⟨aliasName, name, arguments, directives, selections, written, haliasName,
      hname, harguments, hdepth, rfl, rfl⟩
    refine ⟨⟨haliasName, hname⟩, .field aliasName name arguments directives selections span
      harguments, rfl, rfl, ?_⟩
    rw [Selection.depth]
    split
    · exact Nat.zero_le depth
    · rename_i hne
      exact hdepth (by simpa using hne)

/-! ## Spreads -/

theorem reads_onKeyword : onKeyword.Reads fun _ items _ => items = [.keyword "on"] := by
  intro k
  refine ReadsFrom.keyword_bind ?_
  split
  · rename_i h
    refine (ReadsFrom.takeKeyword (fun _ => .keyword "on") h rfl
      (spelled_terminal _)).mono ?_
    rintro t items k' ⟨hitems, -⟩
    exact hitems
  · exact ReadsFrom.failUnexpected _

/-- What follows the dots and the type condition of an inline fragment. -/
theorem reads_inlineFragment (typeCondition : Option Token) (hnested : ReadsSets nested depth) :
    (inlineFragment typeCondition nested).Reads fun build items _ =>
      ∃ directives selections, selections ≠ [] ∧ Selection.setDepth selections ≤ depth ∧
        build = (fun span => .inlineFragment typeCondition directives selections span) ∧
        items = directives.map Directive.item ++
          Item.braced (selections.map Selection.item) := by
  intro k
  refine (reads_directives k).bind ?_
  rintro directives _ k₁ ⟨rfl, -⟩
  refine (hnested k₁).bind ?_
  rintro selections _ k₂ ⟨rfl, hne, hdepth⟩
  refine ReadsFrom.pure ⟨directives, selections, hne, hdepth, rfl, ?_⟩
  rw [List.append_nil]

/-- What a spread is, behind its dots. -/
theorem reads_spreadBody (hnested : ReadsSets nested depth) :
    (spreadBody nested).Reads fun build items _ => ∀ span, (build span).WellFormed ∧
      Rule .reading (.selection (build span)) (.terminal .spread :: items) ∧
      (build span).span = span ∧ (build span).depth ≤ depth := by
  intro k
  refine ReadsFrom.keyword_bind ?_
  split
  · refine (reads_onKeyword k).bind ?_
    rintro on _ k₁ rfl
    refine (ReadsFrom.name _).bind ?_
    rintro typeCondition _ k₂ ⟨rfl, htype, -⟩
    refine (reads_inlineFragment (some typeCondition) hnested k₂).mono ?_
    rintro _ _ k₃ ⟨directives, selections, hne, hdepth, rfl, rfl⟩ span
    refine ⟨⟨by simpa using htype, hne⟩, ?_, rfl, hdepth⟩
    exact .inlineFragment (some typeCondition) directives selections span
  · rename_i hon
    refine ReadsFrom.lexeme_bind ?_
    split
    · refine (ReadsFrom.name _).bind ?_
      rintro name _ k₁ ⟨rfl, hname, hkeyword⟩
      refine (reads_directives k₁).bind ?_
      rintro directives _ k₂ ⟨rfl, -⟩
      refine ReadsFrom.pure fun span => ?_
      refine ⟨⟨hname, KeywordTable.ne_on (hkeyword ▸ hon)⟩, ?_, rfl, Nat.zero_le depth⟩
      rw [List.append_nil]
      exact .fragmentSpread name directives span
    · refine (reads_inlineFragment none hnested k).mono ?_
      rintro _ _ k₁ ⟨directives, selections, hne, hdepth, rfl, rfl⟩ span
      refine ⟨⟨by simp, hne⟩, ?_, rfl, hdepth⟩
      exact .inlineFragment none directives selections span

theorem reads_spread (hnested : ReadsSets nested depth) : (spread nested).Reads fun s items _ =>
    items = [s.item] ∧ s.depth ≤ depth := by
  intro k
  refine ReadsFrom.spanned .selection (T := fun build items _ => ∀ span,
    (build span).WellFormed ∧ Rule .reading (.selection (build span)) items ∧
      (build span).span = span ∧ (build span).depth ≤ depth) ?_ ?_
  · refine (Reads.spreadDots k).bind ?_
    rintro _ _ k₁ rfl
    exact reads_spreadBody hnested k₁
  · rintro build items k' span h
    obtain ⟨hwf, hrule, hspan, hdepth⟩ := h span
    exact ⟨hwf, hrule, congrArg some hspan, rfl, hdepth⟩

theorem reads_selection (hnested : ReadsSets nested depth) :
    (selection nested).Reads fun s items _ => items = [s.item] ∧ s.depth ≤ depth := by
  intro k
  refine ReadsFrom.lexeme_bind ?_
  split
  · exact reads_spread hnested k
  · exact reads_field hnested k

end

/-! ## Selection sets -/

theorem reads_braced {allowEmpty : Bool} {item : Production Selection} {depth : Nat}
    (hitem : item.read.Reads fun s items _ => items = [s.item] ∧ s.depth ≤ depth) :
    (braced allowEmpty item).Reads fun selections items _ =>
      items = Item.braced (selections.map Selection.item) ∧
      (allowEmpty = false → selections ≠ []) ∧ Selection.setDepth selections ≤ depth + 1 := by
  intro k
  refine (Reads.word (c := '{') rfl _ k).bind ?_
  rintro opener _ k₁ rfl
  refine (Production.reads_untilClosing hitem k₁).bind ?_
  rintro selections _ k₂ ⟨rfl, hall, hclose⟩
  split
  · exact ReadsFrom.fail _
  · rename_i hempty
    refine (ReadsFrom.advance hclose rfl).bind ?_
    rintro _ _ k₃ rfl
    refine ReadsFrom.pure ⟨rfl, ?_, Selection.setDepth_le_iff.mpr hall⟩
    rintro rfl rfl
    exact hempty rfl

/-- A selection set is read as it is written, no deeper than it may nest. -/
theorem reads_selectionSet (allowEmpty : Bool) (depth : Nat) :
    (Production.selectionSet allowEmpty depth).read.Reads fun selections items _ =>
      items = Item.braced (selections.map Selection.item) ∧
      (allowEmpty = false → selections ≠ []) ∧ Selection.setDepth selections ≤ depth := by
  induction depth generalizing allowEmpty with
  | zero =>
    intro k
    refine ReadsFrom.lexeme_bind ?_
    split
    · exact ReadsFrom.fail _
    · exact ReadsFrom.failUnexpected _
  | succ depth ih =>
    refine reads_braced (reads_selection ((ih false).mono ?_))
    rintro selections items k' ⟨hitems, hne, hdepth⟩
    exact ⟨hitems, hne rfl, hdepth⟩

end Reader

end GraphQLSyntax
