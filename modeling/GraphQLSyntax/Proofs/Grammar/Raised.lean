import GraphQLSyntax.Proofs.Grammar.Refused
import GraphQLSyntax.Proofs.Scan.Past

/-!
# The errors that texts are refused with

A text is refused at a lexeme, or at what stands behind one where the grammar asks for it. There
are few kinds of such errors.

* `SyntaxError.Raised`: the errors, and what is known of the text where each of them comes up.
* `SyntaxError.Raised.shown`: what an error shows, and where. `SyntaxError.Raised.pointed`: what its
  notes point at.
* `Reader.Raises`: a reader ends in no other errors, and what it gives has a property.
* `SyntaxError.raised_of_error`: no text is refused with any other error.
-/

namespace GraphQLSyntax

variable {text : String}

/-- A lexeme opens what a delimiter closes. -/
def Scanner.Opens (s : Scanner) (delimiter : String) : Prop :=
  (s.lexeme = .parenOpen ∧ delimiter = "(") ∨ (s.lexeme = .squareOpen ∧ delimiter = "[") ∨
    (s.lexeme = .curlyOpen ∧ delimiter = "\x7b")

/-! ## Errors -/

namespace SyntaxError

/-- An error comes up in `text`. -/
inductive Raised (text : String) : SyntaxError → Prop where
  /-- The current lexeme does not fit. -/
  | unfit {s : Scanner} {cause : Cause} {notes : List Note} (hs : s.AtLexeme text)
    (hend : s.lexeme = .eof → ∃ expected, cause = .unexpectedEnd expected)
    (hunread : cause = .unreadable → s.lexeme = .unknown)
    (hnotes : ∀ note ∈ notes, note.span = none) :
    Raised text { s.error cause with notes }
  /-- No name touches a sigil. -/
  | nameless {s : Scanner} {expected : List String} (hs : s.AtLexeme text)
    (hsigil : s.lexeme = .dollar ∨ s.lexeme = .atSign) (hname : s.sigilName.lexeme ≠ .name) :
    Raised text (s.failHere.unexpected expected)
  /-- The text ends before something is closed. -/
  | unclosed {s opener : Scanner} {delimiter message : String} (hs : s.AtLexeme text)
    (heof : s.lexeme = .eof) (hopener : opener.AtLexeme text) (hopens : opener.Opens delimiter) :
    Raised text (s.unclosed delimiter message opener.span)
  /-- What follows the name of a type leaves a list open. -/
  | unclosedType {t : Trail} {s opener : Scanner} {message : String} (hs : s.cursor.Past text t)
    (hbehind : ∀ c ∈ s.cursor.rest.head?, Lexical.isIgnorable c = false ∧ c ≠ ']')
    (hopener : opener.AtLexeme text) (hopens : opener.lexeme = .squareOpen) :
    Raised text (s.failHere.unclosed "[" message opener.span)
  /-- More lists are closed behind the name of a type than are open. -/
  | unopenedType {t : Trail} {s : Scanner} (hs : s.cursor.Past text t)
    (hbehind : s.cursor.rest.head? = some ']') :
    Raised text (s.failHere.error (.unexpectedToken ["!"] "]"))
  /-- An object literal breaks off. -/
  | brokenObject {s : Scanner} {message : String} (hs : s.AtLexeme text)
    (hopens : s.lexeme = .curlyOpen) (hbroken : s.objectLiteral.lexeme = .unknown) :
    Raised text ((s.objectLiteral.error (if s.objectLiteral.cursor.rest = [] then
      .unclosedDelimiter "\x7b" else .unreadable)).withNote (.pointing message s.span))
  /-- Something opens a level too many. -/
  | tooDeep {s : Scanner} {delimiter : String} (hs : s.AtLexeme text)
    (hopens : s.Opens delimiter) : Raised text (Scanner.tooDeep delimiter s.span)
  /-- A selection set is closed that selects nothing. -/
  | emptySet {s opener : Scanner} {message advice : String} (hs : s.AtLexeme text)
    (hcloses : s.lexeme = .curlyClose) (hopener : opener.AtLexeme text)
    (hopens : opener.lexeme = .curlyOpen) :
    Raised text (((s.error (.emptyConstruct "selection set")).withNote
      (.pointing message opener.span)).withNote (.help advice))

end SyntaxError

namespace Scanner.AtLexeme

variable {s : Scanner}

/-- What a delimiter closes is opened by one character. -/
theorem text_of_opens {delimiter : String} (h : s.AtLexeme text) (hopens : s.Opens delimiter) :
    s.text = delimiter.toList := by
  obtain ⟨-, t, k, -, -, rfl⟩ := h
  rcases hopens with ⟨hkind, rfl⟩ | ⟨hkind, rfl⟩ | ⟨hkind, rfl⟩
  · exact text_ofCursor (c := '(') hkind rfl
  · exact text_ofCursor (c := '[') hkind rfl
  · exact text_ofCursor (c := '{') hkind rfl

theorem opening_of_opens {delimiter : String} (h : s.AtLexeme text) (hopens : s.Opens delimiter) :
    ∃ c, s.text = [c] ∧ (c = '(' ∨ c = '[' ∨ c = '{') := by
  rw [h.text_of_opens hopens]
  rcases hopens with ⟨-, rfl⟩ | ⟨-, rfl⟩ | ⟨-, rfl⟩
  · exact ⟨'(', rfl, .inl rfl⟩
  · exact ⟨'[', rfl, .inr (.inl rfl)⟩
  · exact ⟨'{', rfl, .inr (.inr rfl)⟩

theorem holds (h : s.AtLexeme text) : s.Holds text := by
  obtain ⟨-, t, k, hk, -, rfl⟩ := h
  exact holds_ofCursor hk.reaches

/-- No lexeme starts with a line break. -/
theorem head_inLine (h : s.AtLexeme text) : ∀ c ∈ s.text.head?, Text.inLine c := by
  intro c hc
  obtain ⟨-, t, k, -, hstarts, rfl⟩ := h
  obtain ⟨rest, hrest⟩ := Lexical.classify_isPrefix k.rest
  have hhead : c ∈ k.rest.head? := by
    rw [← hrest, List.head?_append]
    exact Option.mem_def.mpr (by rw [show (Lexical.classify k.rest).2.head? = some c from hc]; rfl)
  exact Text.inLine_of_not_gap (hstarts c hhead).1

/-- A failure behind a sigil is inside no line end. -/
theorem past_behindSigil (h : s.AtLexeme text) (hsigil : s.lexeme = .dollar ∨ s.lexeme = .atSign) :
    ∃ t, s.failHere.Past text t := by
  obtain ⟨t, ht⟩ := h.past
  refine ⟨_, past_failHere ht.cursor_past ?_⟩
  obtain ⟨-, -, k, -, -, rfl⟩ := h
  obtain ⟨c, rest, hrest, hc⟩ := Lexical.single?_of_classify rfl (.inr hsigil)
  rw [ofCursor, hrest, Lexical.classify_single hc]
  rintro ⟨hreturn, -⟩
  rw [Trail.text_append, Trail.text_read, List.getLast?_concat, Option.some.injEq] at hreturn
  rw [hreturn] at hc
  cases hc

end Scanner.AtLexeme

namespace SyntaxError.Raised

variable {e : SyntaxError}

/-- An error is about the current lexeme, or about what stands at the cursor. No such lexeme starts
with a line break. -/
theorem past (h : e.Raised text) : ∃ (t : Trail) (s : Scanner),
    s.Past text t ∧ e.found = s.failureText ∧ e.span = s.failureSpan ∧
      ∀ c ∈ s.text.head?, Text.inLine c := by
  have hwhole {t : Trail} {rest : List Char}
      (hrest : ∀ c ∈ rest.head?, Lexical.isIgnorable c = false) :
      ¬ Text.CutsLineEnd t.text rest := by
    rintro ⟨-, hfeed⟩
    exact absurd (hrest '\n' hfeed) (by decide)
  have hnothing {s : Scanner} : ∀ c ∈ s.failHere.text.head?, Text.inLine c := by
    rintro c ⟨⟩
  cases h with
  | unfit hs =>
    obtain ⟨t, ht⟩ := hs.past
    exact ⟨t, _, ht, rfl, rfl, hs.head_inLine⟩
  | nameless hs hsigil =>
    obtain ⟨t, ht⟩ := hs.past_behindSigil hsigil
    exact ⟨t, _, ht, rfl, rfl, hnothing⟩
  | unclosed hs =>
    obtain ⟨t, ht⟩ := hs.past
    exact ⟨t, _, ht, rfl, rfl, hs.head_inLine⟩
  | unclosedType hs hbehind =>
    exact ⟨_, _, Scanner.past_failHere hs (hwhole fun c hc => (hbehind c hc).1), rfl, rfl, hnothing⟩
  | unopenedType hs hbehind =>
    refine ⟨_, _, Scanner.past_failHere hs (hwhole fun c hc => ?_), rfl, rfl, hnothing⟩
    rw [hbehind] at hc
    cases hc
    decide
  | brokenObject hs hopens =>
    obtain ⟨t, ht⟩ := hs.past
    refine ⟨t, _, ht.objectLiteral, rfl, rfl, ?_⟩
    rw [Scanner.objectLiteral, hs.text_of_opens (.inr (.inr ⟨hopens, rfl⟩))]
    rintro c ⟨⟩
    rfl
  | @tooDeep s delimiter hs hopens =>
    obtain ⟨t, ht⟩ := hs.past
    have htext := hs.text_of_opens hopens
    have hne : s.text ≠ [] := by
      rw [htext]
      rcases hopens with ⟨-, rfl⟩ | ⟨-, rfl⟩ | ⟨-, rfl⟩ <;> decide
    have hrefuses := Scanner.Refuses.tooDeep hne
    rw [htext, String.ofList_toList] at hrefuses
    exact ⟨t, s, ht, hrefuses.found, hrefuses.span, hs.head_inLine⟩
  | emptySet hs =>
    obtain ⟨t, ht⟩ := hs.past
    exact ⟨t, _, ht, rfl, rfl, hs.head_inLine⟩

/-- **An error shows what stands behind a trail**, which ends inside no line end. -/
theorem shown (h : e.Raised text) : ∃ (t : Trail) (after : List Char),
    text.toList = t.text ++ after ∧ ¬ Text.CutsLineEnd t.text after ∧
      t.Shows after e.found e.span := by
  obtain ⟨t, s, hs, hfound, hspan, -⟩ := h.past
  rw [hfound, hspan]
  exact ⟨t, _, hs.text_eq, hs.whole, hs.shows⟩

/-- **The notes of an error point at what was opened.** -/
theorem pointed (h : e.Raised text) : ∀ note ∈ e.notes, ∀ span ∈ note.span,
    ∃ (opener : Scanner) (delimiter : String),
      opener.AtLexeme text ∧ opener.Opens delimiter ∧ span = opener.span := by
  have hsingle {opener : Scanner} {delimiter message : String} {cause : Cause} {s : Scanner}
      (hopener : opener.AtLexeme text) (hopens : opener.Opens delimiter) :
      ∀ note ∈ ((s.error cause).withNote (.pointing message opener.span)).notes,
        ∀ span ∈ note.span, ∃ (opener : Scanner) (delimiter : String),
          opener.AtLexeme text ∧ opener.Opens delimiter ∧ span = opener.span := by
    intro note hnote span hspan
    obtain rfl := List.mem_singleton.mp hnote
    cases hspan
    exact ⟨opener, delimiter, hopener, hopens, rfl⟩
  cases h with
  | unfit hs hend hunread hnotes =>
    intro note hnote span hspan
    rw [hnotes note hnote] at hspan
    cases hspan
  | nameless =>
    intro note hnote span hspan
    obtain rfl := List.mem_singleton.mp hnote
    cases hspan
  | unclosed hs heof hopener hopens => exact hsingle hopener hopens
  | unclosedType hs hbehind hopener hopens => exact hsingle hopener (.inr (.inl ⟨hopens, rfl⟩))
  | unopenedType => exact fun note hnote => absurd hnote List.not_mem_nil
  | brokenObject hs hopens => exact hsingle hs (.inr (.inr ⟨hopens, rfl⟩))
  | tooDeep => exact fun note hnote => absurd hnote List.not_mem_nil
  | emptySet hs hcloses hopener hopens =>
    intro note hnote span hspan
    rcases List.mem_append.mp hnote with hnote | hnote
    · exact hsingle hopener (.inr (.inr ⟨hopens, rfl⟩)) note hnote span hspan
    · obtain rfl := List.mem_singleton.mp hnote
      cases hspan

end SyntaxError.Raised

/-! ## Readers -/

/-- A token is a lexeme of `text`. -/
def Token.IsLexeme (text : String) (kind : Lexeme) (token : Token) : Prop :=
  ∃ s : Scanner, s.AtLexeme text ∧ s.lexeme = kind ∧ token = s.token

namespace Reader

variable {α β : Type} {P : α → Prop} {Q : β → Prop} {r : Reading} {t : Trail}

/-- What comes of a reader in `text`: it stands at a lexeme, and what it gives has a property, or
it ends in one of the errors. -/
def Ends (text : String) (P : α → Prop) : Except SyntaxError (α × Reading) → Prop
  | .ok (a, r) => P a ∧ r.scanner.AtLexeme text
  | .error e => e.Raised text

/-- From a lexeme of `text`, a reader gets to another one, or ends in one of the errors. What it
gives has a property. -/
def Raises (p : Reader α) (text : String) (P : α → Prop) : Prop :=
  ∀ r : Reading, r.scanner.AtLexeme text → Ends text P (p r)

namespace Ends

theorem mono {x : Except SyntaxError (α × Reading)} {P' : α → Prop} (h : Ends text P x)
    (hP : ∀ a, P a → P' a) : Ends text P' x := by
  cases x with
  | error e => exact h
  | ok q => exact ⟨hP q.1 h.1, h.2⟩

theorem bind {p : Reader α} {f : α → Reader β} (hp : Ends text P (p r))
    (hf : ∀ a r', p r = .ok (a, r') → P a → r'.scanner.AtLexeme text → Ends text Q (f a r')) :
    Ends text Q ((p >>= f) r) := by
  rw [bind_apply]
  cases hq : p r with
  | error e =>
    rw [hq] at hp
    exact hp
  | ok q =>
    rw [hq] at hp
    exact hf q.1 q.2 hq hp.1 hp.2

theorem pure {a : α} (ha : P a) (h : r.scanner.AtLexeme text) :
    Ends text P ((Pure.pure a : Reader α) r) := ⟨ha, h⟩

/-- The next lexeme is one of `text`, and refused only where it is unknown. -/
theorem advanceAfter (h : Scanner.Reached text t r.scanner) (stop : Position) :
    Ends text (fun _ => True) (Reader.advanceAfter stop r) := by
  have hnext := h.atLexeme
  unfold Reader.advanceAfter
  dsimp only
  split
  · rename_i hunknown
    exact .unfit hnext (fun heof => absurd (hunknown.symm.trans heof) (by decide))
      (fun _ => hunknown) (by simp)
  · exact ⟨trivial, hnext⟩

theorem take (h : Scanner.Reached text t r.scanner) :
    Ends text (fun token => token = r.scanner.token) (Reader.take r) := by
  unfold Reader.take
  rw [token_bind]
  exact (advanceAfter h _).bind fun _ _ _ _ hr =>
    .pure (P := fun token => token = r.scanner.token) rfl hr

end Ends

namespace Raises

theorem mono {p : Reader α} {P' : α → Prop} (h : p.Raises text P) (hP : ∀ a, P a → P' a) :
    p.Raises text P' := fun r hr => (h r hr).mono hP

theorem bind {p : Reader α} {f : α → Reader β} (hp : p.Raises text P)
    (hf : ∀ a, P a → (f a).Raises text Q) : (p >>= f).Raises text Q :=
  fun r hr => (hp r hr).bind fun a r' _ ha hr' => hf a ha r' hr'

theorem pure {a : α} (ha : P a) : (Pure.pure a : Reader α).Raises text P := fun _ hr => .pure ha hr

theorem lexeme_bind {f : Lexeme → Reader α} (hf : ∀ l, (f l).Raises text P) :
    (lexeme >>= f).Raises text P := fun r hr => hf _ r hr

theorem keyword_bind {f : Lexeme → Reader α} (hf : ∀ l, (f l).Raises text P) :
    (keyword >>= f).Raises text P := fun r hr => hf _ r hr

theorem fail {error : Scanner → SyntaxError}
    (h : ∀ s : Scanner, s.AtLexeme text → (error s).Raised text) :
    (Reader.fail error : Reader α).Raises text P := fun r hr => h r.scanner hr

theorem failUnexpected (expected : List String) :
    (Reader.failUnexpected expected : Reader α).Raises text P := by
  refine .fail fun s hs => .unfit hs (fun heof => ?_) (fun hcause => ?_) fun note hnote => ?_
  · rw [heof]
    exact ⟨expected, rfl⟩
  · split at hcause <;> first | assumption | cases hcause
  · obtain rfl := List.mem_singleton.mp hnote
    rfl

theorem advance : Reader.advance.Raises text fun _ => True := by
  intro r hr
  obtain ⟨t, ht⟩ := hr.1
  exact .advanceAfter ht _

theorem take : Reader.take.Raises text fun token => ∃ kind, token.IsLexeme text kind := by
  intro r hr
  obtain ⟨t, ht⟩ := hr.1
  exact (Ends.take ht).mono fun token htoken => ⟨_, r.scanner, hr, rfl, htoken⟩

theorem expect (kind : Lexeme) (expected : List String) :
    (Reader.expect kind expected).Raises text (Token.IsLexeme text kind) := by
  intro r hr
  obtain ⟨t, ht⟩ := hr.1
  unfold Reader.expect
  rw [Reader.lexeme_bind]
  split
  · exact (Ends.take ht).mono fun token htoken => ⟨r.scanner, hr, by assumption, htoken⟩
  · exact failUnexpected expected r hr

theorem name (what : String) : (Reader.name what).Raises text (Token.IsLexeme text .name) :=
  expect _ _

theorem whenAt {kind : Lexeme} {otherwise : α} {part : Reader α} (ha : P otherwise)
    (h : part.Raises text P) : (Reader.whenAt kind otherwise part).Raises text P :=
  lexeme_bind fun l => by
    split
    · exact h
    · exact .pure ha

theorem spanned {part : Reader (Span → α)} (h : part.Raises text fun _ => True) :
    (Reader.spanned part).Raises text fun _ => True := by
  intro r hr
  have hpart := h r hr
  unfold Reader.spanned
  cases hq : part r with
  | error e =>
    rw [hq] at hpart
    exact hpart
  | ok q =>
    rw [hq] at hpart
    exact hpart

theorem endOfInput : Reader.endOfInput.Raises text fun _ => True :=
  lexeme_bind fun l => by
    split
    · exact .pure trivial
    · exact failUnexpected _

/-- The name behind a sigil is looked for where the sigil ends. -/
theorem sigilName {sigil : Lexeme} (hsigil : sigil = .dollar ∨ sigil = .atSign)
    (expected : List String) (what : String) :
    (Reader.sigilName sigil expected what).Raises text fun _ => True := by
  intro r hr
  obtain ⟨t, ht⟩ := hr.1
  unfold Reader.sigilName
  split
  · rename_i hcurrent
    dsimp only
    split
    · rename_i hname
      exact ((Ends.take (r := { r with scanner := r.scanner.sigilName })
        ht.sigilName).mono fun _ _ => trivial)
    · rename_i hname
      rw [Scanner.sigilName_eq_failHere hname]
      exact .nameless hr (hcurrent ▸ hsigil) hname
  · exact failUnexpected expected r hr

theorem spreadDots : Reader.spreadDots.Raises text fun _ => True := by
  intro r hr
  obtain ⟨t, ht⟩ := hr.1
  unfold Reader.spreadDots
  split
  · split
    · rename_i s hs
      exact .advanceAfter (r := { r with scanner := s }) (ht.spreadTail hs) _
    · exact failUnexpected _ r hr
  · exact failUnexpected _ r hr

end Raises

namespace Ends

theorem object (hr : r.scanner.AtLexeme text) (hopens : r.scanner.lexeme = .curlyOpen) :
    Ends text (fun _ => True) (Reader.object r) := by
  obtain ⟨t, ht⟩ := hr.1
  unfold Reader.object
  dsimp only
  split
  · exact .brokenObject hr hopens (by assumption)
  · exact (Ends.take (r := { r with scanner := r.scanner.objectLiteral }) ht.objectLiteral).bind
      fun _ _ _ _ hr => .pure trivial hr

/-- Only an opening bracket opens lists. -/
theorem openings (hr : r.scanner.AtLexeme text) :
    Ends text (fun lists => lists ≠ 0 → r.scanner.lexeme = .squareOpen) (Reader.openings r) := by
  obtain ⟨t, ht⟩ := hr.1
  unfold Reader.openings
  rw [lexeme_bind]
  split
  · rename_i hopen
    rw [cursor_bind]
    split
    · exact .tooDeep hr (.inr (.inl ⟨hopen, rfl⟩))
    · exact (advanceAfter (r := { r with scanner.cursor := _ }) ht.openings _).bind
        fun _ _ _ _ hr => .pure (fun _ => hopen) hr
  · exact .pure (fun hne => absurd rfl hne) hr

/-- Lists are left open only where some were opened. -/
theorem closings {lists : Nat} {opener : Scanner} (hr : r.scanner.AtLexeme text)
    (hopener : opener.AtLexeme text) (hopens : lists ≠ 0 → opener.lexeme = .squareOpen) :
    Ends text (fun _ => True) (Reader.closings lists opener.span r) := by
  obtain ⟨t, ht⟩ := hr.1
  have hreached := ht.closings lists
  have hcursor := hreached.tracked.past
  have hhead := Lexical.head_behind_closings lists r.scanner.cursor.rest
  rw [← Cursor.rest_consume] at hhead
  unfold Reader.closings
  rw [cursor_bind, skipText_bind, cursor_bind]
  split
  · rename_i hclose
    exact .unopenedType (s := { r.scanner with cursor := _ }) hcursor hclose
  · rename_i hclose
    split
    · refine .unclosedType (s := { r.scanner with cursor := _ }) hcursor (fun c hc => ?_) hopener
        (hopens (by omega))
      refine ⟨(hhead c hc).1, ?_⟩
      rintro rfl
      exact hclose hc
    · exact (advanceAfter (r := { r with scanner.cursor := _ }) hreached _).bind
        fun _ _ _ _ hr => .pure trivial hr

end Ends

end Reader

/-! ## Repeated parts -/

namespace Production

open Reader

variable {α : Type} {item : Production α} {r r' : Reading} {as : List α} {close : Lexeme}

/-- The lexeme that closes is current behind the items. -/
theorem lexeme_of_untilClosing {unclosed : Scanner → SyntaxError}
    (h : item.untilClosing close unclosed r = .ok (as, r')) : r'.scanner.lexeme = close := by
  unfold untilClosing at h
  induction as generalizing r with
  | nil =>
    obtain ⟨-, hmore, rfl⟩ | ⟨a, rest, r₁, ⟨⟩, -⟩ := repeatWhile_cases h
    split at hmore
    · assumption
    · split at hmore <;> cases hmore
  | cons a as ih =>
    obtain ⟨⟨⟩, -⟩ | ⟨b, rest, r₁, hcons, -, -, hrest⟩ := repeatWhile_cases h
    obtain ⟨rfl, rfl⟩ := List.cons.inj hcons
    exact ih hrest

theorem raises_repeatWhile {more : Scanner → Except SyntaxError Bool}
    (h : item.read.Raises text fun _ => True)
    (hmore : ∀ (s : Scanner) e, s.AtLexeme text → more s = .error e → e.Raised text) :
    (item.repeatWhile more).Raises text fun _ => True := by
  intro r hr
  unfold repeatWhile
  dsimp only
  fun_induction collect item more r with
  | case1 r e he => exact hmore _ e hr he
  | case2 r he => exact ⟨trivial, hr⟩
  | case3 r he e hread =>
    have := h r hr
    rw [hread] at this
    exact this
  | case4 r he a r₁ hread hlt items ending heq ih =>
    have hfirst := h r hr
    rw [hread] at hfirst
    have hrest := ih hfirst.2
    rw [heq] at hrest
    cases ending <;> exact hrest

theorem raises_whileAt (kind : Lexeme) (h : item.read.Raises text fun _ => True) :
    (item.whileAt kind).Raises text fun _ => True :=
  raises_repeatWhile h fun _ _ _ he => by cases he

/-- What is never closed is opened by a lexeme before. -/
theorem raises_untilClosing {opener : Scanner} {delimiter message : String}
    (h : item.read.Raises text fun _ => True) (hopener : opener.AtLexeme text)
    (hopens : opener.Opens delimiter) :
    (item.untilClosing close fun s => s.unclosed delimiter message opener.span).Raises text
      fun _ => True := by
  refine raises_repeatWhile h fun s e hs he => ?_
  split at he
  · cases he
  · split at he
    · rename_i heof
      cases he
      exact .unclosed hs heof hopener hopens
    · cases he

theorem raises_parenthesised (h : item.read.Raises text fun _ => True) :
    item.parenthesised.Raises text fun _ => True :=
  .bind (.expect _ _) fun token htoken => by
    obtain ⟨opener, hopener, hkind, rfl⟩ := htoken
    exact .bind (raises_untilClosing h hopener (.inl ⟨hkind, rfl⟩)) fun _ _ =>
      .bind .advance fun _ _ => .pure trivial

end Production

namespace Reader

/-! ## Values -/

theorem raises_literal (kind : Lexeme) : (literal kind).Raises text fun _ => True :=
  .bind .take fun _ _ => .pure trivial

theorem raises_namedValue : namedValue.Raises text fun _ => True :=
  .bind .take fun _ _ => .pure trivial

theorem raises_list {item : Production Value} (h : item.read.Raises text fun _ => True) :
    (list item).Raises text fun _ => True :=
  .spanned <| .bind (.expect _ _) fun token htoken => by
    obtain ⟨opener, hopener, hkind, rfl⟩ := htoken
    exact .bind (Production.raises_untilClosing h hopener (.inr (.inl ⟨hkind, rfl⟩))) fun _ _ =>
      .bind .advance fun _ _ => .pure trivial

theorem raises_valueWith {list : Reader Value}
    (hlist : ∀ r : Reading, r.scanner.AtLexeme text → r.scanner.lexeme = .squareOpen →
      Ends text (fun _ => True) (list r)) : (valueWith list).Raises text fun _ => True := by
  intro r hr
  unfold valueWith
  rw [lexeme_bind]
  generalize hkind : r.scanner.lexeme = kind
  split
  · exact raises_namedValue r hr
  · exact hlist r hr hkind
  · exact .object hr hkind
  · exact raises_literal _ r hr
  · exact raises_literal _ r hr
  · exact raises_literal _ r hr
  · exact raises_literal _ r hr
  · exact .unfit hr (fun _ => ⟨_, rfl⟩) nofun (by simp)
  · rename_i hend
    exact .unfit hr (fun heof => absurd (hkind.symm.trans heof) hend) nofun (by simp)

theorem raises_value_depth (depth : Nat) :
    (Production.value depth).read.Raises text fun _ => True := by
  induction depth with
  | zero => exact raises_valueWith fun r hr hopen => .tooDeep hr (.inr (.inl ⟨hopen, rfl⟩))
  | succ depth ih => exact raises_valueWith fun r hr _ => raises_list ih r hr

theorem raises_value : value.Raises text fun _ => True := raises_value_depth _

/-! ## Types -/

theorem raises_wrappedName : wrappedName.Raises text fun _ => True := by
  intro r hr
  unfold wrappedName
  rw [token_bind]
  refine (Ends.openings hr).bind fun lists r' _ hopens hr' => ?_
  rw [lexeme_bind]
  split
  · rw [token_bind]
    exact (Ends.closings hr' hr hopens).bind fun _ _ _ _ hr => .pure trivial hr
  · exact Raises.failUnexpected _ r' hr'

theorem raises_typeRef : typeRef.Raises text fun _ => True :=
  .lexeme_bind fun l => by
    split
    · exact .spanned raises_wrappedName
    · exact .spanned raises_wrappedName
    · exact .failUnexpected _

/-! ## Selections -/

theorem raises_argumentValue : argumentValue.Raises text fun _ => True :=
  .lexeme_bind fun l => by
    split
    · exact .bind (.sigilName (.inl rfl) _ _) fun _ _ => .pure trivial
    · exact .bind raises_value fun _ _ => .pure trivial

theorem raises_argument : argument.Raises text fun _ => True :=
  .spanned <| .bind (.name _) fun _ _ => .bind (.expect _ _) fun _ _ =>
    .bind raises_argumentValue fun _ _ => .pure trivial

theorem raises_arguments : arguments.Raises text fun _ => True :=
  .whenAt trivial (Production.raises_parenthesised raises_argument)

theorem raises_directive : directive.Raises text fun _ => True :=
  .spanned <| .bind (.sigilName (.inr rfl) _ _) fun _ _ => .bind raises_arguments fun _ _ =>
    .pure trivial

theorem raises_directives : directives.Raises text fun _ => True :=
  Production.raises_whileAt _ raises_directive

theorem raises_aliased : aliased.Raises text fun _ => True :=
  .whenAt trivial <| .bind (.expect _ _) fun _ _ => .bind (.name _) fun _ _ => .pure trivial

theorem raises_onKeyword : onKeyword.Raises text fun _ => True :=
  .keyword_bind fun k => by
    split
    · exact .mono .take fun _ _ => trivial
    · exact .failUnexpected _

section

variable {nested : Reader (List Selection)} (hnested : nested.Raises text fun _ => True)
include hnested

theorem raises_field : (field nested).Raises text fun _ => True :=
  .spanned <| .bind (.name _) fun _ _ => .bind raises_aliased fun _ _ =>
    .bind raises_arguments fun _ _ => .bind raises_directives fun _ _ =>
      .bind (.whenAt trivial hnested) fun _ _ => .pure trivial

theorem raises_inlineFragment (typeCondition : Option Token) :
    (inlineFragment typeCondition nested).Raises text fun _ => True :=
  .bind raises_directives fun _ _ => .bind hnested fun _ _ => .pure trivial

theorem raises_spreadBody : (spreadBody nested).Raises text fun _ => True :=
  .keyword_bind fun k => by
    split
    · exact .bind raises_onKeyword fun _ _ => .bind (.name _) fun _ _ =>
        raises_inlineFragment hnested _
    · refine .lexeme_bind fun l => ?_
      split
      · exact .bind (.name _) fun _ _ => .bind raises_directives fun _ _ => .pure trivial
      · exact raises_inlineFragment hnested _

theorem raises_spread : (spread nested).Raises text fun _ => True :=
  .spanned <| .bind .spreadDots fun _ _ => raises_spreadBody hnested

theorem raises_selection : (selection nested).Raises text fun _ => True :=
  .lexeme_bind fun l => by
    split
    · exact raises_spread hnested
    · exact raises_field hnested

end

/-- A selection set is only refused for selecting nothing once it is closed. -/
theorem raises_braced (allowEmpty : Bool) {item : Production Selection}
    (h : item.read.Raises text fun _ => True) :
    (braced allowEmpty item).Raises text fun _ => True :=
  .bind (.expect _ _) fun token htoken r hr => by
    obtain ⟨opener, hopener, hkind, rfl⟩ := htoken
    refine (Production.raises_untilClosing h hopener (.inr (.inr ⟨hkind, rfl⟩)) r hr).bind
      fun selections r' hread _ hr' => ?_
    split
    · exact .emptySet hr' (Production.lexeme_of_untilClosing hread) hopener hkind
    · exact (Raises.bind .advance fun _ _ => .pure trivial) r' hr'

theorem raises_failTooDeep : failTooDeep.Raises text fun _ => True := by
  intro r hr
  unfold failTooDeep
  rw [lexeme_bind]
  split
  · rename_i hopen
    have hopens : r.scanner.Opens "\x7b" := .inr (.inr ⟨hopen, rfl⟩)
    have hraised := SyntaxError.Raised.tooDeep hr hopens
    rw [← String.ofList_toList (s := "\x7b"), ← hr.text_of_opens hopens] at hraised
    exact hraised
  · exact Raises.failUnexpected _ r hr

theorem raises_selectionSet (allowEmpty : Bool) (depth : Nat) :
    (Production.selectionSet allowEmpty depth).read.Raises text fun _ => True := by
  induction depth generalizing allowEmpty with
  | zero => exact raises_failTooDeep
  | succ depth ih => exact raises_braced _ (raises_selection (ih false))

theorem raises_ownSelections : ownSelections.Raises text fun _ => True := raises_selectionSet _ _

/-! ## Documents -/

theorem raises_defaultValue : defaultValue.Raises text fun _ => True :=
  .whenAt trivial <| .bind (.expect _ _) fun _ _ => .bind raises_value fun _ _ => .pure trivial

theorem raises_variableDefinition : variableDefinition.Raises text fun _ => True :=
  .spanned <| .bind (.sigilName (.inl rfl) _ _) fun _ _ => .bind (.expect _ _) fun _ _ =>
    .bind raises_typeRef fun _ _ => .bind raises_defaultValue fun _ _ =>
      .bind raises_directives fun _ _ => .pure trivial

theorem raises_variableDefinitions : variableDefinitions.Raises text fun _ => True :=
  .whenAt trivial (Production.raises_parenthesised raises_variableDefinition)

theorem raises_shorthand : shorthand.Raises text fun _ => True :=
  .spanned <| .bind raises_ownSelections fun _ _ => .pure trivial

theorem raises_operation (kind : OperationKind) (keyword : Lexeme) :
    (operation kind keyword).Raises text fun _ => True := by
  have hname : (whenAt .name none (take >>= fun token => pure (some token))).Raises text
      fun _ => True := .whenAt trivial (.bind .take fun _ _ => .pure trivial)
  exact .spanned <| .bind .take fun _ _ => .bind hname fun _ _ =>
    .bind raises_variableDefinitions fun _ _ => .bind raises_directives fun _ _ =>
      .bind (.whenAt trivial raises_ownSelections) fun _ _ => .pure trivial

/-- No end of input is read as a keyword. -/
theorem raises_fragmentName : fragmentName.Raises text fun _ => True := by
  intro r hr
  unfold fragmentName
  rw [keyword_bind]
  split
  · rename_i hkeyword
    have hend : r.scanner.keyword .execution ≠ .eof := by
      rw [hkeyword]
      decide
    exact .unfit hr (fun heof => absurd heof (Scanner.lexeme_ne_eof_of_keyword hend)) nofun
      (by simp [Note.general, Note.spec])
  · exact (Raises.name _).mono (fun _ _ => trivial) r hr

theorem raises_fragment : fragment.Raises text fun _ => True :=
  .spanned <| .bind .take fun _ _ => .bind raises_fragmentName fun _ _ =>
    .bind raises_onKeyword fun _ _ => .bind (.name _) fun _ _ =>
      .bind raises_directives fun _ _ =>
        .bind (.whenAt trivial raises_ownSelections) fun _ _ => .pure trivial

theorem raises_failDefinition : failDefinition.Raises text fun _ => True := by
  intro r hr
  unfold failDefinition
  split
  · rename_i keyword hkeyword
    have hend : r.scanner.keyword .definition ≠ .eof := by
      intro heof
      rw [heof] at hkeyword
      cases hkeyword
    exact .unfit hr (fun heof => absurd heof (Scanner.lexeme_ne_eof_of_keyword hend)) nofun
      (by simp [Note.general])
  · exact Raises.failUnexpected _ r hr

theorem raises_definition : definition.Raises text fun _ => True :=
  .keyword_bind fun k => by
    split
    · exact .bind raises_shorthand fun _ _ => .pure trivial
    · exact .bind (raises_operation _ _) fun _ _ => .pure trivial
    · exact .bind (raises_operation _ _) fun _ _ => .pure trivial
    · exact .bind (raises_operation _ _) fun _ _ => .pure trivial
    · exact .bind raises_fragment fun _ _ => .pure trivial
    · exact raises_failDefinition
    · exact .failUnexpected _

theorem raises_definitions : definitions.Raises text fun _ => True :=
  Production.raises_repeatWhile raises_definition fun _ _ _ he => by cases he

theorem raises_toEnd {α : Type} {part : Reader α} (h : part.Raises text fun _ => True) :
    (toEnd part).Raises text fun _ => True :=
  .bind h fun _ _ => .bind .endOfInput fun _ _ => .pure trivial

/-- What is read from the start of a text on ends in no other errors. -/
theorem Raises.of_start {α : Type} {p : Reader α} {e : SyntaxError}
    (h : p.Raises text fun _ => True)
    (he : (Reader.advance >>= fun _ => p) (.ofText text) = .error e) : e.Raised text := by
  have hends : Ends text (fun _ => True) ((Reader.advance >>= fun _ => p) (.ofText text)) :=
    (Ends.advanceAfter .start _).bind fun _ _ _ _ hr => h _ hr
  rw [he] at hends
  exact hends

end Reader

/-- **No text is refused with any other error.** -/
theorem SyntaxError.raised_of_error {e : SyntaxError} (h : Document.parse text = .error e ∨
    TypeRef.parse text = .error e ∨ Value.parse text = .error e) : e.Raised text := by
  rcases h with h | h | h
  · rw [Document.parse_eq] at h
    exact Reader.raises_definitions.of_start (Reader.error_of_map h)
  · exact (Reader.raises_toEnd Reader.raises_typeRef).of_start (Reader.error_of_map h)
  · exact (Reader.raises_toEnd Reader.raises_value).of_start (Reader.error_of_map h)

end GraphQLSyntax
