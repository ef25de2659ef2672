import GraphQLSyntax.Proofs.Grammar.Step
import GraphQLSyntax.Proofs.Scan.Below

/-!
# Reading below another text

Below another text, a reader reads the same as without it, and fails in the same way. Only the lines
and bytes above are counted.

* `Reader.Moves`: a reader does below what another does without anything above.
* `Reader.moves_definitions`: so does the reader of definitions.
-/

namespace GraphQLSyntax

def Reading.map (f : Position → Position) (r : Reading) : Reading :=
  ⟨r.scanner.map f, f r.consumedTo⟩

@[simp] theorem Reading.scanner_map (f : Position → Position) (r : Reading) :
    (r.map f).scanner = r.scanner.map f := rfl

namespace Reader

variable {α β γ δ : Type}

/-- What comes of reading below another text: something that `R` relates to what is read without
it, or the same error. -/
inductive Below (above : List Char) (R : α → β → Prop) :
    Except SyntaxError (α × Reading) → Except SyntaxError (β × Reading) → Prop where
  | ok {a : α} {b : β} (r : Reading) (h : R a b) :
    Below above R (.ok (a, r)) (.ok (b, r.map (.below above)))
  | error (e : SyntaxError) : Below above R (.error e) (.error (e.map (.below above)))

/-- Below another text, `q` reads what `R` relates to what `p` reads without it. -/
def Moves (above : List Char) (R : α → β → Prop) (p : Reader α) (q : Reader β) : Prop :=
  ∀ r, Below above R (p r) (q (r.map (.below above)))

/-- `m` takes one to the other. -/
def By (m : α → β) (a : α) (b : β) : Prop := b = m a

/-- Two functions of a span build what `m` takes to each other, for the spans without and with the
text above. -/
def Builds (above : List Char) (m : α → β) (build : Span → α) (build' : Span → β) : Prop :=
  ∀ span, build' (span.map (.below above)) = m (build span)

variable {above : List Char} {R : α → β → Prop} {S : γ → δ → Prop}

/-! ## Readers in a row -/

theorem Below.of_error {e e' : SyntaxError} (h : e' = e.map (.below above)) :
    Below above R (.error e) (.error e') := h ▸ .error e

theorem Below.bind {p : Reader α} {q : Reader β} {f : α → Reader γ} {g : β → Reader δ}
    {r r' : Reading} (hp : Below above R (p r) (q r'))
    (hf : ∀ a b r₁, p r = .ok (a, r₁) → R a b →
      Below above S (f a r₁) (g b (r₁.map (.below above)))) :
    Below above S ((p >>= f) r) ((q >>= g) r') := by
  rw [bind_apply, bind_apply]
  generalize hx : p r = x at hp hf
  generalize q r' = y at hp
  cases hp with
  | ok r₁ h => exact hf _ _ r₁ rfl h
  | error e => exact .error e

namespace Moves

theorem pure {a : α} {b : β} (h : R a b) :
    Moves above R (Pure.pure a : Reader α) (Pure.pure b : Reader β) := fun r => .ok r h

theorem bind {p : Reader α} {q : Reader β} {f : α → Reader γ} {g : β → Reader δ}
    (hp : Moves above R p q) (hf : ∀ a b, R a b → Moves above S (f a) (g b)) :
    Moves above S (p >>= f) (q >>= g) :=
  fun r => (hp r).bind fun a b r₁ _ hR => hf a b hR r₁

theorem map {m : α → β} {f : α → γ} {g : β → δ} {p : Reader α} {q : Reader β}
    (hp : Moves above (By m) p q) (h : ∀ a, S (f a) (g (m a))) :
    Moves above S (p >>= fun a => Pure.pure (f a)) (q >>= fun b => Pure.pure (g b)) :=
  hp.bind fun a _ hb => hb ▸ .pure (h a)

theorem lexeme_bind {f : Lexeme → Reader γ} {g : Lexeme → Reader δ}
    (hf : ∀ l, Moves above S (f l) (g l)) : Moves above S (lexeme >>= f) (lexeme >>= g) :=
  fun r => hf r.scanner.lexeme r

theorem keyword_bind {f : Lexeme → Reader γ} {g : Lexeme → Reader δ}
    (hf : ∀ l, Moves above S (f l) (g l)) : Moves above S (keyword >>= f) (keyword >>= g) :=
  fun r => hf (r.scanner.keyword .execution) r

theorem token_bind {f : Token → Reader γ} {g : Token → Reader δ}
    (hf : ∀ t, Moves above S (f t) (g (t.map (.below above)))) :
    Moves above S (token >>= f) (token >>= g) :=
  fun r => hf r.scanner.token r

theorem cursor_bind {f : Cursor → Reader γ} {g : Cursor → Reader δ}
    (hf : ∀ k, Moves above S (f k) (g (k.map (.below above)))) :
    Moves above S (cursor >>= f) (cursor >>= g) :=
  fun r => hf r.scanner.cursor r

theorem fail {error error' : Scanner → SyntaxError}
    (h : ∀ s, error' (s.map (.below above)) = (error s).map (.below above)) :
    Moves above R (Reader.fail error) (Reader.fail error') := by
  intro r
  rw [fail_apply, fail_apply]
  exact .of_error (h r.scanner)

theorem failUnexpected (expected : List String) :
    Moves above R (Reader.failUnexpected expected) (Reader.failUnexpected expected) :=
  fail fun s => s.unexpected_below expected

theorem skipText (taken : List Char) :
    Moves above Eq (Reader.skipText taken) (Reader.skipText taken) := by
  intro r
  unfold Reader.skipText Reading.map Scanner.map
  dsimp only
  rw [Cursor.consume_below]
  exact .ok { r with scanner.cursor := r.scanner.cursor.consume taken } rfl

theorem advanceAfter (stop : Position) :
    Moves above Eq (Reader.advanceAfter stop) (Reader.advanceAfter (stop.below above)) := by
  intro r
  unfold Reader.advanceAfter Reading.map
  dsimp only
  rw [Scanner.advancePastComments_below, Scanner.lexeme_map]
  by_cases hunknown : r.scanner.advancePastComments.lexeme = .unknown
  · rw [if_pos hunknown, if_pos hunknown, Scanner.error_below]
    exact .error _
  · rw [if_neg hunknown, if_neg hunknown]
    exact .ok ⟨r.scanner.advancePastComments, stop⟩ rfl

theorem advance : Moves above Eq Reader.advance Reader.advance :=
  fun r => advanceAfter r.scanner.cursor.position r

theorem take : Moves above (By (Token.map (.below above))) Reader.take Reader.take :=
  token_bind fun _ => advance.bind fun _ _ _ => .pure rfl

theorem expect (kind : Lexeme) (expected : List String) :
    Moves above (By (Token.map (.below above))) (Reader.expect kind expected)
      (Reader.expect kind expected) :=
  lexeme_bind fun l => by
    split
    · exact take
    · exact failUnexpected expected

theorem name (what : String) :
    Moves above (By (Token.map (.below above))) (Reader.name what) (Reader.name what) :=
  expect _ _

theorem sigilName (sigil : Lexeme) (expected : List String) (what : String) :
    Moves above (By (Token.map (.below above))) (Reader.sigilName sigil expected what)
      (Reader.sigilName sigil expected what) := by
  intro r
  unfold Reader.sigilName
  rw [Reading.scanner_map, Scanner.lexeme_map]
  by_cases hsigil : r.scanner.lexeme = sigil
  · rw [if_pos hsigil, if_pos hsigil]
    dsimp only
    rw [Scanner.sigilName_below, Scanner.lexeme_map]
    by_cases hname : r.scanner.sigilName.lexeme = .name
    · rw [if_pos hname, if_pos hname]
      exact take { r with scanner := r.scanner.sigilName }
    · rw [if_neg hname, if_neg hname, Scanner.unexpected_below]
      exact .error _
  · rw [if_neg hsigil, if_neg hsigil]
    exact failUnexpected expected r

theorem whenAt {kind : Lexeme} {a : α} {b : β} {p : Reader α} {q : Reader β} (h : R a b)
    (hp : Moves above R p q) :
    Moves above R (Reader.whenAt kind a p) (Reader.whenAt kind b q) :=
  lexeme_bind fun l => by
    split
    · exact hp
    · exact .pure h

theorem spanned {m : α → β} {p : Reader (Span → α)} {q : Reader (Span → β)}
    (hp : Moves above (Builds above m) p q) :
    Moves above (By m) (Reader.spanned p) (Reader.spanned q) := by
  intro r
  have hr := hp r
  unfold Reader.spanned
  generalize p r = x at hr
  generalize q (r.map (.below above)) = y at hr
  cases hr with
  | ok r₁ h => exact .ok r₁ (h ⟨r.scanner.start, r₁.consumedTo⟩)
  | error e => exact .error e

end Moves

end Reader

/-! ## Repeated parts -/

namespace Production

open Reader

variable {α β : Type} {above : List Char} {m : α → β} {item : Production α} {item' : Production β}

theorem moves_repeatWhile {more more' : Scanner → Except SyntaxError Bool}
    (hmore : ∀ s, more' (s.map (.below above)) =
      (more s).mapError (SyntaxError.map (.below above)))
    (hitem : Moves above (By m) item.read item'.read) :
    Moves above (By (List.map m)) (item.repeatWhile more) (item'.repeatWhile more') := by
  intro r
  induction hn : r.remaining using Nat.strongRecOn generalizing r with
  | ind n ih =>
    have hmore' : more' (r.map (.below above)).scanner = _ := hmore r.scanner
    cases hr : more r.scanner with
    | error e =>
      rw [hr] at hmore'
      rw [repeatWhile_of_error hr, repeatWhile_of_error hmore']
      exact .error e
    | ok again =>
      rw [hr] at hmore'
      cases again with
      | false =>
        rw [repeatWhile_of_end hr, repeatWhile_of_end hmore']
        exact .ok r rfl
      | true =>
        rw [repeatWhile_of_more hr, repeatWhile_of_more hmore']
        refine (hitem r).bind fun a _ r₁ hread ha => ?_
        refine (ih _ (hn ▸ item.advances r a r₁ hread) r₁ rfl).bind fun as _ r₂ _ has => ?_
        rw [ha, has]
        exact .ok r₂ rfl

theorem moves_whileAt (kind : Lexeme) (hitem : Moves above (By m) item.read item'.read) :
    Moves above (By (List.map m)) (item.whileAt kind) (item'.whileAt kind) :=
  moves_repeatWhile (fun _ => rfl) hitem

theorem moves_untilClosing (close : Lexeme) {unclosed unclosed' : Scanner → SyntaxError}
    (hunclosed : ∀ s, unclosed' (s.map (.below above)) = (unclosed s).map (.below above))
    (hitem : Moves above (By m) item.read item'.read) :
    Moves above (By (List.map m)) (item.untilClosing close unclosed)
      (item'.untilClosing close unclosed') := by
  refine moves_repeatWhile (fun s => ?_) hitem
  rw [hunclosed, Scanner.lexeme_map]
  by_cases hclose : s.lexeme = close
  · rw [if_pos hclose, if_pos hclose]
    rfl
  · rw [if_neg hclose, if_neg hclose]
    by_cases hend : s.lexeme = .eof
    · rw [if_pos hend, if_pos hend]
      rfl
    · rw [if_neg hend, if_neg hend]
      rfl

theorem moves_parenthesised (hitem : Moves above (By m) item.read item'.read) :
    Moves above (By (List.map m)) item.parenthesised item'.parenthesised := by
  refine (Moves.expect _ _).bind ?_
  rintro opener _ rfl
  refine (moves_untilClosing _ (fun s => s.unclosed_below _ _ _) hitem).bind ?_
  rintro items _ rfl
  exact Moves.advance.bind fun _ _ _ => .pure rfl

end Production

namespace Reader

variable {above : List Char}

/-! ## Values -/

theorem moves_literal (kind : Lexeme) :
    Moves above (By (Value.map (.below above))) (literal kind) (literal kind) :=
  Moves.take.map fun _ => rfl

theorem moves_namedValue :
    Moves above (By (Value.map (.below above))) namedValue namedValue := by
  refine Moves.take.map fun t => ?_
  show Value.ofName _ = (Value.ofName t).map _
  unfold Value.ofName
  dsimp only [Token.map]
  split <;> rfl

theorem moves_object : Moves above (By (Value.map (.below above))) object object := by
  intro r
  unfold object
  rw [Reading.scanner_map, Scanner.objectLiteral_below]
  dsimp only
  rw [Scanner.lexeme_map]
  by_cases hunknown : r.scanner.objectLiteral.lexeme = .unknown
  · rw [if_pos hunknown, if_pos hunknown, Scanner.error_below]
    exact .of_error (by rw [SyntaxError.withNote_map]; rfl)
  · rw [if_neg hunknown, if_neg hunknown]
    exact moves_literal .object { r with scanner := r.scanner.objectLiteral }

theorem moves_list {item item' : Production Value}
    (hitem : Moves above (By (Value.map (.below above))) item.read item'.read) :
    Moves above (By (Value.map (.below above))) (list item) (list item') := by
  refine .spanned ((Moves.expect _ _).bind ?_)
  rintro opener _ rfl
  refine (Production.moves_untilClosing _ (fun s => s.unclosed_below _ _ _) hitem).bind ?_
  rintro items _ rfl
  refine Moves.advance.bind fun _ _ _ => .pure fun span => ?_
  rw [Value.map, Value.mapAll_eq]

theorem moves_valueWith {list list' : Reader Value}
    (hlist : Moves above (By (Value.map (.below above))) list list') :
    Moves above (By (Value.map (.below above))) (valueWith list) (valueWith list') :=
  .lexeme_bind fun l => by
    split
    · exact moves_namedValue
    · exact hlist
    · exact moves_object
    · exact moves_literal _
    · exact moves_literal _
    · exact moves_literal _
    · exact moves_literal _
    · exact .fail fun s => s.error_below _
    · exact .fail fun s => s.error_below _

theorem moves_value_depth (depth : Nat) : Moves above (By (Value.map (.below above)))
    (Production.value depth).read (Production.value depth).read := by
  induction depth with
  | zero => exact moves_valueWith (.fail fun s => rfl)
  | succ depth ih => exact moves_valueWith (moves_list ih)

theorem moves_value : Moves above (By (Value.map (.below above))) value value :=
  moves_value_depth _

/-! ## Types -/

theorem moves_openings : Moves above Eq openings openings :=
  .lexeme_bind fun l => by
    split
    · refine .cursor_bind fun k => ?_
      dsimp +instances only [Cursor.rest_map]
      split
      · exact .fail fun s => rfl
      · exact (Moves.skipText _).bind fun _ _ _ => Moves.advance.bind fun _ _ _ => .pure rfl
    · exact .pure rfl

theorem moves_closings (lists : Nat) (opener : Span) :
    Moves above Eq (closings lists opener) (closings lists (opener.map (.below above))) := by
  refine .cursor_bind fun name => ?_
  dsimp +instances only [Cursor.rest_map]
  refine (Moves.skipText _).bind fun _ _ _ => .cursor_bind fun k => ?_
  dsimp +instances only [Cursor.rest_map]
  split
  · exact .fail fun s => s.failHere.error_below _
  · split
    · exact .fail fun s => s.failHere.unclosed_below _ _ _
    · rw [Cursor.consume_below]
      exact (Moves.advanceAfter _).bind fun _ _ _ => .pure rfl

theorem moves_wrappedName :
    Moves above (Builds above (TypeRef.map (.below above))) wrappedName wrappedName := by
  refine .token_bind fun opener => moves_openings.bind ?_
  rintro lists _ rfl
  refine .lexeme_bind fun l => ?_
  split
  · refine .token_bind fun name => (moves_closings lists opener.span).bind ?_
    rintro wrapping _ rfl
    exact .pure fun span => rfl
  · exact .failUnexpected _

theorem moves_typeRef : Moves above (By (TypeRef.map (.below above))) typeRef typeRef :=
  .lexeme_bind fun l => by
    split
    · exact .spanned moves_wrappedName
    · exact .spanned moves_wrappedName
    · exact .failUnexpected _

/-! ## Arguments and directives -/

theorem moves_argumentValue :
    Moves above (By (ArgumentValue.map (.below above))) argumentValue argumentValue :=
  .lexeme_bind fun l => by
    split
    · exact (Moves.sigilName _ _ _).map fun _ => rfl
    · exact moves_value.map fun _ => rfl

theorem moves_argument : Moves above (By (Argument.map (.below above))) argument argument := by
  refine .spanned ((Moves.name _).bind ?_)
  rintro argumentName _ rfl
  refine (Moves.expect _ _).bind fun _ _ _ => moves_argumentValue.bind ?_
  rintro value _ rfl
  exact .pure fun span => rfl

theorem moves_arguments :
    Moves above (By (List.map (Argument.map (.below above)))) arguments arguments :=
  .whenAt rfl (Production.moves_parenthesised moves_argument)

theorem moves_directive :
    Moves above (By (Directive.map (.below above))) directive directive := by
  refine .spanned ((Moves.sigilName _ _ _).bind ?_)
  rintro directiveName _ rfl
  refine moves_arguments.bind ?_
  rintro arguments _ rfl
  exact .pure fun span => rfl

theorem moves_directives :
    Moves above (By (List.map (Directive.map (.below above)))) directives directives :=
  Production.moves_whileAt _ moves_directive

/-! ## Selections -/

theorem moves_aliased :
    Moves above (By (Option.map (Token.map (.below above)))) aliased aliased :=
  .whenAt rfl ((Moves.expect _ _).bind fun _ _ _ => (Moves.name _).map fun _ => rfl)

theorem moves_spreadDots : Moves above Eq spreadDots spreadDots := by
  intro r
  unfold spreadDots
  rw [Reading.scanner_map, Scanner.lexeme_map, Scanner.spreadTail?_below]
  by_cases hperiod : r.scanner.lexeme = .period
  · rw [if_pos hperiod, if_pos hperiod]
    cases r.scanner.spreadTail? with
    | none => exact Moves.failUnexpected _ r
    | some scanner => exact Moves.advance { r with scanner }
  · rw [if_neg hperiod, if_neg hperiod]
    exact Moves.failUnexpected _ r

theorem moves_onKeyword :
    Moves above (By (Token.map (.below above))) onKeyword onKeyword :=
  .keyword_bind fun k => by
    split
    · exact .take
    · exact .failUnexpected _

section

variable {nested nested' : Reader (List Selection)}
  (hnested : Moves above (By (List.map (Selection.map (.below above)))) nested nested')
include hnested

theorem moves_field :
    Moves above (By (Selection.map (.below above))) (field nested) (field nested') := by
  refine .spanned ((Moves.name _).bind ?_)
  rintro first _ rfl
  refine moves_aliased.bind ?_
  rintro second _ rfl
  refine moves_arguments.bind ?_
  rintro arguments _ rfl
  refine moves_directives.bind ?_
  rintro directives _ rfl
  refine (Moves.whenAt (R := By _) rfl hnested).bind ?_
  rintro selections _ rfl
  refine .pure fun span => ?_
  cases second <;> simp [Selection.map]

theorem moves_inlineFragment (typeCondition : Option Token) :
    Moves above (Builds above (Selection.map (.below above))) (inlineFragment typeCondition nested)
      (inlineFragment (typeCondition.map (Token.map (.below above))) nested') := by
  refine moves_directives.bind ?_
  rintro directives _ rfl
  refine hnested.bind ?_
  rintro selections _ rfl
  refine .pure fun span => ?_
  rw [Selection.map, Selection.mapAll_eq]

theorem moves_spreadBody :
    Moves above (Builds above (Selection.map (.below above))) (spreadBody nested)
      (spreadBody nested') :=
  .keyword_bind fun k => by
    split
    · refine moves_onKeyword.bind fun _ _ _ => (Moves.name _).bind ?_
      rintro typeCondition _ rfl
      exact moves_inlineFragment hnested (some typeCondition)
    · refine .lexeme_bind fun l => ?_
      split
      · refine (Moves.name _).bind ?_
        rintro fragmentName _ rfl
        refine moves_directives.bind ?_
        rintro directives _ rfl
        exact .pure fun span => rfl
      · exact moves_inlineFragment hnested none

theorem moves_spread :
    Moves above (By (Selection.map (.below above))) (spread nested) (spread nested') :=
  .spanned (moves_spreadDots.bind fun _ _ _ => moves_spreadBody hnested)

theorem moves_selection :
    Moves above (By (Selection.map (.below above))) (selection nested) (selection nested') :=
  .lexeme_bind fun l => by
    split
    · exact moves_spread hnested
    · exact moves_field hnested

end

theorem moves_failEmptySet (opener : Span) {R : List Selection → List Selection → Prop} :
    Moves above R (failEmptySet opener) (failEmptySet (opener.map (.below above))) :=
  .fail fun s => by
    rw [SyntaxError.withNote_map, SyntaxError.withNote_map, Scanner.error_below]
    rfl

theorem moves_braced (allowEmpty : Bool) {item item' : Production Selection}
    (hitem : Moves above (By (Selection.map (.below above))) item.read item'.read) :
    Moves above (By (List.map (Selection.map (.below above)))) (braced allowEmpty item)
      (braced allowEmpty item') := by
  refine (Moves.expect _ _).bind ?_
  rintro opener _ rfl
  refine (Production.moves_untilClosing _ (fun s => s.unclosed_below _ _ _) hitem).bind ?_
  rintro selections _ rfl
  rw [List.isEmpty_map]
  split
  · exact moves_failEmptySet _
  · exact Moves.advance.bind fun _ _ _ => .pure rfl

theorem moves_failTooDeep :
    Moves above (By (List.map (Selection.map (.below above)))) failTooDeep failTooDeep :=
  .lexeme_bind fun l => by
    split
    · exact .fail fun s => rfl
    · exact .failUnexpected _

theorem moves_selectionSet (allowEmpty : Bool) (depth : Nat) :
    Moves above (By (List.map (Selection.map (.below above))))
      (Production.selectionSet allowEmpty depth).read
      (Production.selectionSet allowEmpty depth).read := by
  induction depth generalizing allowEmpty with
  | zero => exact moves_failTooDeep
  | succ depth ih => exact moves_braced _ (moves_selection (ih false))

theorem moves_ownSelections :
    Moves above (By (List.map (Selection.map (.below above)))) ownSelections ownSelections :=
  moves_selectionSet _ _

/-! ## Definitions -/

theorem moves_defaultValue :
    Moves above (By (Option.map (Value.map (.below above)))) defaultValue defaultValue :=
  .whenAt rfl ((Moves.expect _ _).bind fun _ _ _ => moves_value.map fun _ => rfl)

theorem moves_variableDefinition :
    Moves above (By (VariableDefinition.map (.below above))) variableDefinition
      variableDefinition := by
  refine .spanned ((Moves.sigilName _ _ _).bind ?_)
  rintro variableName _ rfl
  refine (Moves.expect _ _).bind fun _ _ _ => moves_typeRef.bind ?_
  rintro type _ rfl
  refine moves_defaultValue.bind ?_
  rintro default _ rfl
  refine moves_directives.bind ?_
  rintro directives _ rfl
  exact .pure fun span => rfl

theorem moves_variableDefinitions :
    Moves above (By (List.map (VariableDefinition.map (.below above)))) variableDefinitions
      variableDefinitions :=
  .whenAt rfl (Production.moves_parenthesised moves_variableDefinition)

theorem moves_shorthand :
    Moves above (By (Operation.map (.below above))) shorthand shorthand := by
  refine .spanned (moves_ownSelections.bind ?_)
  rintro selections _ rfl
  exact .pure fun span => rfl

theorem moves_operation (kind : OperationKind) (keyword : Lexeme) :
    Moves above (By (Operation.map (.below above))) (operation kind keyword)
      (operation kind keyword) := by
  refine .spanned (Moves.take.bind ?_)
  rintro token _ rfl
  refine (Moves.whenAt (R := By (Option.map (Token.map (.below above)))) rfl ?_).bind ?_
  · exact Moves.take.map fun _ => rfl
  rintro operationName _ rfl
  refine moves_variableDefinitions.bind ?_
  rintro definitions _ rfl
  refine moves_directives.bind ?_
  rintro directives _ rfl
  refine (Moves.whenAt (R := By _) rfl moves_ownSelections).bind ?_
  rintro selections _ rfl
  exact .pure fun span => rfl

theorem moves_fragmentName :
    Moves above (By (Token.map (.below above))) fragmentName fragmentName :=
  .keyword_bind fun k => by
    split
    · refine .fail fun s => ?_
      rw [SyntaxError.withNote_map, SyntaxError.withNote_map, Scanner.error_below]
      rfl
    · exact .name _

theorem moves_fragment : Moves above (By (Fragment.map (.below above))) fragment fragment := by
  refine .spanned (Moves.take.bind fun _ _ _ => moves_fragmentName.bind ?_)
  rintro fragmentName _ rfl
  refine moves_onKeyword.bind fun _ _ _ => (Moves.name _).bind ?_
  rintro typeCondition _ rfl
  refine moves_directives.bind ?_
  rintro directives _ rfl
  refine (Moves.whenAt (R := By _) rfl moves_ownSelections).bind ?_
  rintro selections _ rfl
  exact .pure fun span => rfl

theorem moves_failDefinition {R : Definition → Definition → Prop} :
    Moves above R failDefinition failDefinition := by
  intro r
  have hkeyword : (r.map (.below above)).scanner.keyword .definition =
      r.scanner.keyword .definition := rfl
  unfold failDefinition
  rw [hkeyword]
  cases (r.scanner.keyword .definition).spelling? with
  | some keyword =>
    dsimp only
    rw [Reading.scanner_map, Scanner.error_below]
    exact .of_error (by rw [SyntaxError.withNote_map]; rfl)
  | none => exact Moves.failUnexpected _ r

theorem moves_definition :
    Moves above (By (Definition.map (.below above))) definition definition :=
  .keyword_bind fun k => by
    split
    · exact moves_shorthand.map fun _ => rfl
    · exact (moves_operation _ _).map fun _ => rfl
    · exact (moves_operation _ _).map fun _ => rfl
    · exact (moves_operation _ _).map fun _ => rfl
    · exact moves_fragment.map fun _ => rfl
    · exact moves_failDefinition
    · exact .failUnexpected _

theorem moves_definitions :
    Moves above (By (List.map (Definition.map (.below above)))) definitions definitions :=
  Production.moves_repeatWhile (fun _ => rfl) moves_definition

end Reader

end GraphQLSyntax
