import GraphQLSyntax.Proofs.Grammar.Step

/-!
# What readers see of a text

A reader knows a text through its current lexeme. It goes on to the next one, asks for the few
things that are only looked for where the grammar wants them, or refuses the lexeme with an error.

* `Scanner.SameLexeme`, `Scanner.LooksLike`: scanners that a reader cannot tell apart.
* `Scanner.Refuses`: an error is about the current lexeme.
* `Scanner.Sees`: something depends on the current lexeme alone, or refuses it.
* `Reader.Scans`: how readers are put together.
* `Reader.scans_definition`, `Reader.scans_typeRef`, `Reader.scans_value`: all readers of the
  grammar are.
-/

namespace GraphQLSyntax

namespace Scanner

/-! ## The current lexeme -/

/-- Two scanners have the same lexeme at the same place. What follows it may differ. -/
structure SameLexeme (s s' : Scanner) : Prop where
  lexeme : s'.lexeme = s.lexeme
  start : s'.start = s.start
  text : s'.text = s.text
  position : s'.cursor.position = s.cursor.position

/-- Two scanners have the same lexeme, and a failure there shows the same. -/
structure LooksLike (s s' : Scanner) : Prop extends SameLexeme s s' where
  failureText : s'.failureText = s.failureText
  failureSpan : s'.failureSpan = s.failureSpan

theorem SameLexeme.span {s s' : Scanner} (h : s.SameLexeme s') : s'.span = s.span := by
  rw [Scanner.span, Scanner.span, h.start, h.position]

theorem SameLexeme.token {s s' : Scanner} (h : s.SameLexeme s') : s'.token = s.token := by
  rw [Scanner.token, Scanner.token, h.lexeme, h.text, h.span]

theorem SameLexeme.keyword {s s' : Scanner} (h : s.SameLexeme s') (table : KeywordTable) :
    s'.keyword table = s.keyword table := by
  rw [Scanner.keyword, Scanner.keyword, h.lexeme, h.text]

/-- A lexeme of one character is that character. -/
theorem text_ofCursor {k : Cursor} {kind : Lexeme} {c : Char}
    (h : (ofCursor k).lexeme = kind) (hkind : kind.punctuator? = some c) :
    (ofCursor k).text = [c] := by
  obtain ⟨d, rest, hrest, hd⟩ :=
    Lexical.single?_of_classify h (.inl (Lexeme.isStructure_of_punctuator hkind))
  obtain rfl := Lexical.single?_eq_punctuator hd hkind
  rw [ofCursor, hrest, Lexical.classify_single hd]

/-! ## Errors about it -/

/-- An error is about the current lexeme. -/
structure Refuses (s : Scanner) (e : SyntaxError) : Prop where
  found : e.found = s.failureText
  span : e.span = s.failureSpan
  message : e.cause ≠ .invalidSyntax → e.message = "unexpected \"" ++ e.found ++ "\""
  token : ∀ expected found, e.cause = .unexpectedToken expected found → found = e.found
  ending : ∀ expected, e.cause = .unexpectedEnd expected → s.lexeme = .eof
  path : e.path = none

namespace Refuses

variable {s : Scanner} {e : SyntaxError}

theorem withNote (h : s.Refuses e) (note : Note) : s.Refuses (e.withNote note) := by
  cases h
  constructor <;> assumption

theorem error {cause : Cause}
    (htoken : ∀ expected found, cause = .unexpectedToken expected found → found = s.failureText)
    (hending : ∀ expected, cause = .unexpectedEnd expected → s.lexeme = .eof) :
    s.Refuses (s.error cause) := ⟨rfl, rfl, fun _ => rfl, htoken, hending, rfl⟩

theorem unexpected (expected : List String) : s.Refuses (s.unexpected expected) := by
  refine (error ?_ ?_).withNote _
  · intro expected' found hcause
    split at hcause <;> cases hcause
    rfl
  · intro expected' hcause
    split at hcause <;> cases hcause
    assumption

theorem unclosed (delimiter note : String) (opener : Span) :
    s.Refuses (s.unclosed delimiter note opener) :=
  (error (by rintro _ _ ⟨⟩) (by rintro _ ⟨⟩)).withNote _

theorem tooDeep (h : s.text ≠ []) : s.Refuses (Scanner.tooDeep (String.ofList s.text) s.span) := by
  obtain ⟨htext, hspan⟩ := failure_of_text h
  exact ⟨htext.symm, hspan.symm, fun hcause => absurd rfl hcause, by rintro _ _ ⟨⟩,
    by rintro _ ⟨⟩, rfl⟩

theorem tooManyLists {k : Cursor} (h : (ofCursor k).lexeme = .squareOpen) :
    (ofCursor k).Refuses (Scanner.tooDeep "[" (ofCursor k).span) := by
  have htext := text_ofCursor (c := '[') h rfl
  have := tooDeep (s := .ofCursor k) (by rw [htext]; simp)
  rwa [htext] at this

end Refuses

/-! ## What can be told from it -/

/-- `see` tells something of the current lexeme alone, or gives an error that refuses it where `P`
holds. -/
structure Sees {α : Type} (P : Scanner → Prop) (see : Scanner → Except SyntaxError α) : Prop where
  refuses : ∀ k e, P (.ofCursor k) → see (.ofCursor k) = .error e → (ofCursor k).Refuses e
  same : ∀ s s' a, s.SameLexeme s' → see s = .ok a → see s' = .ok a
  sameError : ∀ s s' e, s.LooksLike s' → see s = .error e → see s' = .error e

namespace Sees

variable {α : Type} {P Q : Scanner → Prop}

theorem mono {see : Scanner → Except SyntaxError α} (h : Sees P see) (hPQ : ∀ s, Q s → P s) :
    Sees Q see := ⟨fun k e hQ => h.refuses k e (hPQ _ hQ), h.same, h.sameError⟩

theorem ok {see : Scanner → α} (h : ∀ s s', s.SameLexeme s' → see s' = see s) :
    Sees P fun s => .ok (see s) := by
  refine ⟨by rintro k e - ⟨⟩, ?_, by rintro s s' e - ⟨⟩⟩
  rintro s s' a hsame ⟨⟩
  rw [h s s' hsame]

theorem error {error : Scanner → SyntaxError}
    (hrefuses : ∀ k, P (.ofCursor k) → (ofCursor k).Refuses (error (.ofCursor k)))
    (h : ∀ s s', s.LooksLike s' → error s' = error s) :
    Sees (α := α) P fun s => .error (error s) := by
  refine ⟨?_, by rintro s s' a - ⟨⟩, ?_⟩
  · rintro k e hP ⟨⟩
    exact hrefuses k hP
  · rintro s s' e hlooks ⟨⟩
    rw [h s s' hlooks]

end Sees

namespace LooksLike

variable {s s' : Scanner}

theorem error (h : s.LooksLike s') (cause : Cause) : s'.error cause = s.error cause := by
  rw [Scanner.error, Scanner.error, h.failureText, h.failureSpan]

theorem unexpected (h : s.LooksLike s') (expected : List String) :
    s'.unexpected expected = s.unexpected expected := by
  rw [Scanner.unexpected, Scanner.unexpected, h.lexeme, h.failureText, h.error]

theorem unclosed (h : s.LooksLike s') (delimiter note : String) (opener : Span) :
    s'.unclosed delimiter note opener = s.unclosed delimiter note opener := by
  rw [Scanner.unclosed, Scanner.unclosed, h.error]

end LooksLike

end Scanner

namespace Reader

variable {α β : Type} {P Q : Scanner → Prop}

/-- Tells something of the current lexeme, or refuses it. -/
def peek (see : Scanner → Except SyntaxError α) : Reader α :=
  fun r => (see r.scanner).map fun a => (a, r)

theorem skipText_bind (taken : List Char) (f : Unit → Reader β) (r : Reading) :
    (skipText taken >>= f) r =
      f () { r with scanner.cursor := r.scanner.cursor.consume taken } := rfl

/-- A reader is put together of steps that know a text only through its lexemes. It is read where
`P` holds of the scanner. -/
inductive Scans : {α : Type} → (P : Scanner → Prop) → Reader α → Prop where
  | pure {α : Type} {P : Scanner → Prop} (a : α) : Scans P (Pure.pure a)
  | peek {α : Type} {P : Scanner → Prop} {see : Scanner → Except SyntaxError α}
    (h : Scanner.Sees P see) : Scans P (peek see)
  | peekBind {α β : Type} {P : Scanner → Prop} {see : Scanner → Except SyntaxError α}
    {f : α → Reader β} (h : Scanner.Sees P see)
    (hf : ∀ a, Scans (fun s => P s ∧ see s = .ok a) (f a)) : Scans P (Reader.peek see >>= f)
  | bind {α β : Type} {P : Scanner → Prop} {p : Reader α} {f : α → Reader β} (hp : Scans P p)
    (hf : ∀ a, Scans (fun _ => True) (f a)) : Scans P (p >>= f)
  | advance {P : Scanner → Prop} : Scans P advance
  | spanned {α : Type} {P : Scanner → Prop} {part : Reader (Span → α)} (h : Scans P part) :
    Scans P (spanned part)
  | repeatWhile {α : Type} {P : Scanner → Prop} {item : Production α}
    {more : Scanner → Except SyntaxError Bool} (hmore : Scanner.Sees (fun _ => True) more)
    (hitem : Scans (fun _ => True) item.read) : Scans P (item.repeatWhile more)
  | sigilName {P : Scanner → Prop} (sigil : Lexeme) (expected : List String) (what : String) :
    Scans P (sigilName sigil expected what)
  | spreadDots {P : Scanner → Prop} : Scans P spreadDots
  | object {P : Scanner → Prop} (h : ∀ s, P s → s.lexeme = .curlyOpen) : Scans P object
  | openings {P : Scanner → Prop} : Scans P openings
  | closings {P : Scanner → Prop} (lists : Nat) (opener : Span) : Scans P (closings lists opener)

namespace Scans

theorem mono {p : Reader α} (h : p.Scans P) (hPQ : ∀ s, Q s → P s) : p.Scans Q := by
  induction h generalizing Q with
  | pure a => exact .pure a
  | peek h => exact .peek (h.mono hPQ)
  | peekBind h _ ih => exact .peekBind (h.mono hPQ) fun a => ih a fun s hs => ⟨hPQ s hs.1, hs.2⟩
  | bind _ hf ih _ => exact .bind (ih hPQ) hf
  | advance => exact .advance
  | spanned _ ih => exact .spanned (ih hPQ)
  | repeatWhile hmore hitem _ => exact .repeatWhile hmore hitem
  | sigilName sigil expected what => exact .sigilName sigil expected what
  | spreadDots => exact .spreadDots
  | object h => exact .object fun s hs => h s (hPQ s hs)
  | openings => exact .openings
  | closings lists opener => exact .closings lists opener

theorem of_true {p : Reader α} (h : p.Scans fun _ => True) : p.Scans P := h.mono fun _ _ => trivial

/-! ## Looking -/

theorem lexeme_bind {f : Lexeme → Reader α}
    (hf : ∀ l, (f l).Scans fun s => P s ∧ s.lexeme = l) : (lexeme >>= f).Scans P := by
  have hsees : Scanner.Sees P fun s => .ok s.lexeme := .ok fun _ _ h => h.lexeme
  exact .peekBind hsees fun l => (hf l).mono fun _ hs => ⟨hs.1, Except.ok.inj hs.2⟩

theorem keyword_bind {f : Lexeme → Reader α} (hf : ∀ l, (f l).Scans P) :
    (keyword >>= f).Scans P := by
  have hsees : Scanner.Sees P fun s => .ok (s.keyword .execution) := .ok fun _ _ h => h.keyword _
  exact .peekBind hsees fun l => (hf l).mono fun _ hs => hs.1

theorem token_bind {f : Token → Reader α} (hf : ∀ t, (f t).Scans P) : (token >>= f).Scans P := by
  have hsees : Scanner.Sees P fun s => .ok s.token := .ok fun _ _ h => h.token
  exact .peekBind hsees fun t => (hf t).mono fun _ hs => hs.1

theorem fail {error : Scanner → SyntaxError}
    (hrefuses : ∀ k, P (.ofCursor k) → (Scanner.ofCursor k).Refuses (error (.ofCursor k)))
    (h : ∀ s s', s.LooksLike s' → error s' = error s) : (Reader.fail error : Reader α).Scans P := by
  have hsees : Scanner.Sees (α := α) P fun s => .error (error s) := .error hrefuses h
  exact .peek hsees

theorem failUnexpected (expected : List String) :
    (Reader.failUnexpected expected : Reader α).Scans P :=
  fail (fun _ _ => .unexpected expected) fun _ _ h => h.unexpected expected

theorem take : Reader.take.Scans P := token_bind fun _ => .bind .advance fun _ => .pure _

theorem expect (kind : Lexeme) (expected : List String) : (Reader.expect kind expected).Scans P :=
  lexeme_bind fun l => by
    split
    · exact take
    · exact failUnexpected expected

theorem name (what : String) : (Reader.name what).Scans P := expect _ _

theorem whenAt {kind : Lexeme} {otherwise : α} {part : Reader α}
    (h : part.Scans fun s => P s ∧ s.lexeme = kind) :
    (Reader.whenAt kind otherwise part).Scans P :=
  lexeme_bind fun l => by
    split
    · rename_i hl
      exact hl ▸ h
    · exact .pure _

theorem endOfInput : Reader.endOfInput.Scans P :=
  lexeme_bind fun l => by
    split
    · exact .pure _
    · exact failUnexpected _

end Scans

end Reader

/-! ## Repeated parts -/

namespace Production

variable {α : Type} {item : Production α} {P : Scanner → Prop}

/-- Repeating a part looks whether there is one more, and reads it. -/
theorem repeatWhile_eq (item : Production α) (more : Scanner → Except SyntaxError Bool)
    (r : Reading) : item.repeatWhile more r = (Reader.peek more >>= fun again =>
      if again then do
        let a ← item.read
        let as ← item.repeatWhile more
        return a :: as
      else return []) r := by
  rw [Reader.bind_apply, Reader.peek]
  cases hmore : more r.scanner with
  | error e => exact repeatWhile_of_error hmore
  | ok again =>
    cases again with
    | false => exact repeatWhile_of_end hmore
    | true => exact repeatWhile_of_more hmore

theorem scans_whileAt (kind : Lexeme) (h : item.read.Scans fun _ => True) :
    (item.whileAt kind).Scans P :=
  .repeatWhile (.ok fun s s' hsame => by rw [hsame.lexeme]) h

theorem scans_untilClosing {close : Lexeme} {unclosed : Scanner → SyntaxError}
    (h : item.read.Scans fun _ => True)
    (hrefuses : ∀ k, (Scanner.ofCursor k).Refuses (unclosed (.ofCursor k)))
    (hlooks : ∀ s s', s.LooksLike s' → unclosed s' = unclosed s) :
    (item.untilClosing close unclosed).Scans P := by
  refine .repeatWhile ⟨?_, ?_, ?_⟩ h
  · intro k e _ he
    split at he
    · cases he
    · split at he <;> cases he
      exact hrefuses k
  · intro s s' b hsame hb
    rw [hsame.lexeme]
    by_cases hclose : s.lexeme = close
    · rwa [if_pos hclose] at hb ⊢
    · rw [if_neg hclose] at hb ⊢
      split at hb
      · cases hb
      · rwa [if_neg (by assumption)]
  · intro s s' e hlooks' he
    rw [hlooks'.lexeme, hlooks s s' hlooks']
    exact he

theorem scans_parenthesised (h : item.read.Scans fun _ => True) : item.parenthesised.Scans P :=
  .bind (.expect _ _) fun _ =>
    .bind (scans_untilClosing h (fun _ => .unclosed _ _ _) fun _ _ h => h.unclosed _ _ _) fun _ =>
      .bind .advance fun _ => .pure _

end Production

namespace Reader

variable {P : Scanner → Prop}

/-! ## Values -/

theorem scans_tooManyLists {α : Type} (hP : ∀ s, P s → s.lexeme = .squareOpen) :
    (fail fun s => Scanner.tooDeep "[" s.span : Reader α).Scans P :=
  .fail (fun _ hk => .tooManyLists (hP _ hk)) fun s s' h => by rw [h.span]

theorem scans_literal (kind : Lexeme) : (literal kind).Scans P := .bind .take fun _ => .pure _

theorem scans_namedValue : namedValue.Scans P := .bind .take fun _ => .pure _

theorem scans_list {item : Production Value} (h : item.read.Scans fun _ => True) :
    (list item).Scans P :=
  .spanned <| .bind (.expect _ _) fun _ =>
    .bind (Production.scans_untilClosing h (fun _ => .unclosed _ _ _) fun _ _ h => h.unclosed _ _ _)
      fun _ => .bind .advance fun _ => .pure _

theorem scans_valueWith {list : Reader Value} (hlist : list.Scans fun s => s.lexeme = .squareOpen) :
    (valueWith list).Scans P :=
  .lexeme_bind fun l => by
    split
    · exact scans_namedValue
    · exact hlist.mono fun _ hs => hs.2
    · exact .object fun _ hs => hs.2
    · exact scans_literal _
    · exact scans_literal _
    · exact scans_literal _
    · exact scans_literal _
    · exact .fail (fun k hk => .error (by rintro _ _ ⟨⟩) fun _ _ => hk.2) fun _ _ h => h.error _
    · refine .fail (fun k _ => .error ?_ (by rintro _ ⟨⟩)) fun s s' h => ?_
      · rintro _ _ ⟨⟩
        rfl
      · rw [h.failureText, h.error]

theorem scans_value_depth (depth : Nat) : (Production.value depth).read.Scans P := by
  induction depth generalizing P with
  | zero => exact scans_valueWith (scans_tooManyLists fun _ hs => hs)
  | succ depth ih => exact scans_valueWith (scans_list ih)

theorem scans_value : value.Scans P := scans_value_depth _

/-! ## Types -/

theorem scans_wrappedName : wrappedName.Scans P :=
  .token_bind fun opener => .bind .openings fun lists => .lexeme_bind fun l => by
    split
    · exact .token_bind fun name => .bind (.closings _ _) fun _ => .pure _
    · exact .failUnexpected _

theorem scans_typeRef : typeRef.Scans P :=
  .lexeme_bind fun l => by
    split
    · exact .spanned scans_wrappedName
    · exact .spanned scans_wrappedName
    · exact .failUnexpected _

/-! ## Selections -/

theorem scans_argumentValue : argumentValue.Scans P :=
  .lexeme_bind fun l => by
    split
    · exact .bind (.sigilName _ _ _) fun _ => .pure _
    · exact .bind scans_value fun _ => .pure _

theorem scans_argument : argument.Scans P :=
  .spanned <| .bind (.name _) fun _ => .bind (.expect _ _) fun _ =>
    .bind scans_argumentValue fun _ => .pure _

theorem scans_arguments : arguments.Scans P :=
  .whenAt (Production.scans_parenthesised scans_argument)

theorem scans_directive : directive.Scans P :=
  .spanned <| .bind (.sigilName _ _ _) fun _ => .bind scans_arguments fun _ => .pure _

theorem scans_directives : directives.Scans P := Production.scans_whileAt _ scans_directive

theorem scans_aliased : aliased.Scans P :=
  .whenAt <| .bind (.expect _ _) fun _ => .bind (.name _) fun _ => .pure _

theorem scans_onKeyword : onKeyword.Scans P :=
  .keyword_bind fun k => by
    split
    · exact .take
    · exact .failUnexpected _

section

variable {nested : Reader (List Selection)} (hnested : nested.Scans fun _ => True)
include hnested

theorem scans_field : (field nested).Scans P :=
  .spanned <| .bind (.name _) fun _ => .bind scans_aliased fun _ => .bind scans_arguments fun _ =>
    .bind scans_directives fun _ => .bind (.whenAt hnested.of_true) fun _ => .pure _

theorem scans_inlineFragment (typeCondition : Option Token) :
    (inlineFragment typeCondition nested).Scans P :=
  .bind scans_directives fun _ => .bind hnested fun _ => .pure _

theorem scans_spreadBody : (spreadBody nested).Scans P :=
  .keyword_bind fun k => by
    split
    · exact .bind scans_onKeyword fun _ => .bind (.name _) fun _ => scans_inlineFragment hnested _
    · refine .lexeme_bind fun l => ?_
      split
      · exact .bind (.name _) fun _ => .bind scans_directives fun _ => .pure _
      · exact scans_inlineFragment hnested _

theorem scans_spread : (spread nested).Scans P :=
  .spanned <| .bind .spreadDots fun _ => scans_spreadBody hnested

theorem scans_selection : (selection nested).Scans P :=
  .lexeme_bind fun l => by
    split
    · exact scans_spread hnested
    · exact scans_field hnested

end

theorem scans_failEmptySet (opener : Span) : (failEmptySet opener).Scans P :=
  .fail (fun _ _ =>
    ((Scanner.Refuses.error (by rintro _ _ ⟨⟩) (by rintro _ ⟨⟩)).withNote _).withNote _)
    fun _ _ h => by rw [h.error]

theorem scans_braced (allowEmpty : Bool) {item : Production Selection}
    (h : item.read.Scans fun _ => True) : (braced allowEmpty item).Scans P :=
  .bind (.expect _ _) fun opener =>
    .bind (Production.scans_untilClosing h (fun _ => .unclosed _ _ _) fun _ _ h => h.unclosed _ _ _)
      fun selections => by
        split
        · exact scans_failEmptySet _
        · exact .bind .advance fun _ => .pure _

theorem scans_failTooDeep : failTooDeep.Scans P :=
  .lexeme_bind fun l => by
    split
    · rename_i hl
      subst hl
      refine .fail (fun k hk => .tooDeep ?_) fun s s' h => by rw [h.text, h.span]
      rw [Scanner.text_ofCursor (c := '{') hk.2 rfl]
      simp
    · exact .failUnexpected _

theorem scans_selectionSet (allowEmpty : Bool) (depth : Nat) :
    (Production.selectionSet allowEmpty depth).read.Scans P := by
  induction depth generalizing allowEmpty P with
  | zero => exact scans_failTooDeep
  | succ depth ih => exact scans_braced _ (scans_selection (ih false))

theorem scans_ownSelections : ownSelections.Scans P := scans_selectionSet _ _

/-! ## Documents -/

theorem scans_defaultValue : defaultValue.Scans P :=
  .whenAt <| .bind (.expect _ _) fun _ => .bind scans_value fun _ => .pure _

theorem scans_variableDefinition : variableDefinition.Scans P :=
  .spanned <| .bind (.sigilName _ _ _) fun _ => .bind (.expect _ _) fun _ =>
    .bind scans_typeRef fun _ => .bind scans_defaultValue fun _ =>
      .bind scans_directives fun _ => .pure _

theorem scans_variableDefinitions : variableDefinitions.Scans P :=
  .whenAt (Production.scans_parenthesised scans_variableDefinition)

theorem scans_shorthand : shorthand.Scans P :=
  .spanned <| .bind scans_ownSelections fun _ => .pure _

theorem scans_operation (kind : OperationKind) (keyword : Lexeme) :
    (operation kind keyword).Scans P :=
  .spanned <| .bind .take fun _ => .bind (.whenAt (.bind .take fun _ => .pure _)) fun _ =>
    .bind scans_variableDefinitions fun _ => .bind scans_directives fun _ =>
      .bind (.whenAt scans_ownSelections) fun _ => .pure _

theorem scans_fragmentName : fragmentName.Scans P :=
  .keyword_bind fun k => by
    split
    · exact .fail (fun _ _ =>
        ((Scanner.Refuses.error (by rintro _ _ ⟨⟩) (by rintro _ ⟨⟩)).withNote _).withNote _)
        fun _ _ h => by rw [h.error]
    · exact .name _

theorem scans_fragment : fragment.Scans P :=
  .spanned <| .bind .take fun _ => .bind scans_fragmentName fun _ => .bind scans_onKeyword fun _ =>
    .bind (.name _) fun _ => .bind scans_directives fun _ =>
      .bind (.whenAt scans_ownSelections) fun _ => .pure _

/-- The keywords of schema documents are told from the current lexeme. -/
theorem scans_failDefinition : failDefinition.Scans P := by
  have hfail : failDefinition = Reader.fail fun s => (s.keyword .definition).spelling?.elim
      (s.unexpected ["an operation", "a fragment"]) fun keyword =>
        (s.error (.schemaDefinition keyword)).withNote
          (.general "execution documents may only contain operations and fragments") := by
    funext r
    unfold failDefinition
    rw [fail_apply]
    cases (r.scanner.keyword .definition).spelling? <;> rfl
  rw [hfail]
  refine .fail (fun k _ => ?_) fun s s' hlooks => ?_
  · cases ((Scanner.ofCursor k).keyword .definition).spelling? with
    | none => exact .unexpected _
    | some keyword => exact (Scanner.Refuses.error (by rintro _ _ ⟨⟩) (by rintro _ ⟨⟩)).withNote _
  · rw [hlooks.keyword, hlooks.unexpected]
    simp only [hlooks.error]

theorem scans_definition : definition.Scans P :=
  .keyword_bind fun k => by
    split
    · exact .bind scans_shorthand fun _ => .pure _
    · exact .bind (scans_operation _ _) fun _ => .pure _
    · exact .bind (scans_operation _ _) fun _ => .pure _
    · exact .bind (scans_operation _ _) fun _ => .pure _
    · exact .bind scans_fragment fun _ => .pure _
    · exact scans_failDefinition
    · exact .failUnexpected _

theorem scans_definitions : definitions.Scans P :=
  .repeatWhile (.ok fun s s' h => by rw [h.lexeme]) scans_definition

/-! ## Whole texts -/

/-- An error stays what it is, whatever would have been made of what is read. -/
theorem error_of_map {α β : Type} {x : Except SyntaxError α} {f : α → β} {e : SyntaxError}
    (h : x.map f = .error e) : x = .error e := by
  cases x with
  | error e' =>
    cases h
    rfl
  | ok a => cases h

/-- Reads something up to the end of the text. -/
def toEnd {α : Type} (part : Reader α) : Reader α := do
  let a ← part
  endOfInput
  return a

theorem scans_toEnd {α : Type} {part : Reader α} (h : part.Scans P) : (toEnd part).Scans P :=
  .bind h fun _ => .bind .endOfInput fun _ => .pure _

end Reader

end GraphQLSyntax
