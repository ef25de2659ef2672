import GraphQLSyntax.Proofs.Grammar.Named
import GraphQLSyntax.Proofs.Grammar.Raised

/-!
# Texts that end too early, and texts that cannot be read

An error at the end of a text says that the text ended, or what it left open. There is one place
where it says that the text cannot be read: behind a sigil that nothing follows. Everywhere else
what cannot be read is some text.

* `Lexical.Unreadable`: a text that is no lexeme, or not the one that is asked for.
* `SyntaxError.EndsInSigil`: a sigil is the last lexeme that a run comes to.
* `SyntaxError.Raised.cause_of_atEnd`: why a text is refused at its end.
* `SyntaxError.Raised.unreadable`: what it is that cannot be read.
* `SyntaxError.ended_or_unreadable`: both, for every text that is refused.
-/

namespace GraphQLSyntax

/-- Behind `before`, the text `after` starts with something that cannot be read: `found` is no
lexeme or one that breaks off, a character that is no start of the name a sigil must have, or an
object literal that breaks off in front of further text. -/
inductive Lexical.Unreadable (before : List Char) : (after found : List Char) → Prop where
  | lexeme {after found : List Char} (h : classify after = (.unknown, found)) (hne : found ≠ []) :
    Unreadable before after found
  | character {c : Char} {rest : List Char} (h : classify (c :: rest) = (.unknown, [])) :
    Unreadable before (c :: rest) [c]
  | behindSigil {c : Char} {rest : List Char}
    (hsigil : before.getLast? = some '$' ∨ before.getLast? = some '@')
    (hc : isNameStart c = false) : Unreadable before (c :: rest) [c]
  | object {rest taken : List Char} (h : braced 0 rest = (.unknown, taken)) (hleft : taken ≠ rest) :
    Unreadable before ('{' :: rest) ('{' :: taken)

variable {text : String}

namespace Scanner

variable {s : Scanner} {t : Trail}

/-- Only where nothing is left does a failure cover nothing. -/
theorem Past.nothing_left (h : s.Past text t)
    (hempty : s.failureSpan.start = s.failureSpan.stop) : s.text = [] ∧ s.cursor.rest = [] := by
  have hspan : s.failureSpan.isEmpty = true := by
    rw [Span.isEmpty, hempty]
    exact decide_eq_true (Nat.le_refl _)
  obtain ⟨-, -, hnil⟩ | ⟨hne, -⟩ := h.shows.follows
  · exact List.append_eq_nil_iff.mp hnil
  · rw [hspan] at hne
    cases hne

/-- The cursor behind a sigil. -/
theorem AtLexeme.sigil (h : s.AtLexeme text) (hsigil : s.lexeme = .dollar ∨ s.lexeme = .atSign) :
    ∃ t : Trail, s.cursor.Past text t ∧
      (t.text.getLast? = some '$' ∨ t.text.getLast? = some '@') := by
  obtain ⟨-, t, k, hk, -, rfl⟩ := h
  obtain ⟨c, rest, hrest, hc⟩ := Lexical.single?_of_classify rfl (.inr hsigil)
  have hchar : c = '$' ∨ c = '@' :=
    hsigil.imp (fun h => Lexical.single?_inj (hc.trans (congrArg some h)) rfl)
      fun h => Lexical.single?_inj (hc.trans (congrArg some h)) rfl
  have htaken : (Lexical.classify k.rest).2 = [c] := by
    rw [hrest, Lexical.classify_single hc]
  refine ⟨_, hk.consume (Lexical.classify_isPrefix k.rest), ?_⟩
  rw [htaken, Trail.text_append, Trail.text_read, List.getLast?_concat]
  exact hchar.imp (congrArg some) (congrArg some)

/-- Behind a sigil that no name touches, no character stands that a name starts with. -/
theorem head_behindSigil (h : s.sigilName.lexeme ≠ .name) :
    ∀ c ∈ s.cursor.rest.head?, Lexical.isNameStart c = false := by
  intro c hc
  obtain ⟨rest, hrest⟩ := List.head?_eq_some_iff.mp hc
  refine Bool.eq_false_iff.mpr fun hname => h ?_
  unfold sigilName
  rw [hrest]
  dsimp only
  rw [if_pos hname]

end Scanner

namespace SyntaxError

variable {e : SyntaxError}

/-- The run that refuses a text has read how some items begin, and a sigil is the only lexeme that is
left. -/
def EndsInSigil (e : SyntaxError) (text : String) : Prop :=
  ∃ items pieces k c, e.Refuses text items ∧ Item.Begun .reading items pieces ∧
    Laid (.ofText text) pieces k ∧ (c = '$' ∨ c = '@') ∧ k.skipTrivia.rest = [c]

/-- At the end of a text, it is the name of a sigil that is said to be unreadable. -/
theorem endsInSigil_of_atEnd (h : Document.parse text = .error e ∨ TypeRef.parse text = .error e ∨
    Value.parse text = .error e) (hend : e.AtEnd text) (hcause : e.cause = .unreadable) :
    e.EndsInSigil text := by
  obtain ⟨items, hitems, hstops⟩ := stops_of_error h
  obtain ⟨pieces, k, hbegun, hlaid, ⟨⟨u, hu, hstart⟩, hahead⟩, -⟩ := hstops.begun
  have hne : k.skipTrivia.rest ≠ [] := fun hnil => hahead hcause (Lexical.classify_eof_iff.mpr hnil)
  have hpast := hu.past (hlaid.past (.start text)).1
  have hrest : (k.passAll u).rest = [] := by
    have hplace : (k.passAll u).position.byteOffset = Text.byteLength text.toList := by
      rw [← hstart]
      exact hend.2.1
    have hlength := hpast.reaches.byteLength_rest
    by_contra hleft
    have hpos := Text.byteLength_pos hleft
    omega
  cases hu with
  | lexeme =>
    rw [k.passAll_trivia] at hrest
    exact absurd hrest hne
  | @sigil c rest hc hsigil =>
    rw [Cursor.passAll_append, k.passAll_trivia, Cursor.rest_passAll, hsigil] at hrest
    refine ⟨items, pieces, k, c, hitems, hbegun, hlaid, hc, ?_⟩
    rw [hsigil]
    exact congrArg (c :: ·) hrest
  | ignorable =>
    -- Nothing but white space is left, and no lexeme behind it.
    rw [Cursor.passAll_read] at hrest
    have hskip := Cursor.skipTrivia_consume k.rest.takeWhile_append_dropWhile.symm
      fun c hc => List.mem_takeWhile_imp hc
    rw [Cursor.skipTrivia_of_startsLexeme (by rw [hrest]; nofun)] at hskip
    rw [← hskip] at hne
    exact absurd hrest hne

/-- **At the end of a text, an error says that it ended, or what it left open**, or that something
is unreadable. -/
theorem Raised.cause_of_atEnd (h : e.Raised text) (hend : e.AtEnd text) :
    (∃ expected, e.cause = .unexpectedEnd expected) ∨
      (∃ delimiter, e.cause = .unclosedDelimiter delimiter) ∨ e.cause = .unreadable := by
  obtain ⟨hempty, -, hfound⟩ := hend
  cases h with
  | unfit hs hcause =>
    obtain ⟨-, t, k, hk, hstarts, rfl⟩ := hs
    have hpast := Scanner.past_ofCursor hk hstarts
    obtain ⟨htext, hrest⟩ := hpast.nothing_left hempty
    have hnil : k.rest = [] := by
      have heq := hpast.text_eq
      rw [htext, hrest, hk.text_eq] at heq
      exact List.append_cancel_left heq
    exact .inl (hcause (Lexical.classify_eof_iff.mpr hnil))
  | nameless => exact .inr (.inr rfl)
  | unclosed => exact .inr (.inl ⟨_, rfl⟩)
  | unclosedType => exact .inr (.inl ⟨_, rfl⟩)
  | @unopenedType _ s hs hbehind =>
    obtain ⟨rest, hrest⟩ := List.head?_eq_some_iff.mp hbehind
    have hbracket := (Scanner.failure_of_char (s := s.failHere) rfl hrest).1
    exact absurd (hbracket.symm.trans hfound) (by decide)
  | brokenObject hs hopens =>
    obtain ⟨t, ht⟩ := hs.past
    obtain ⟨htext, -⟩ := ht.objectLiteral.nothing_left hempty
    have hbrace := hs.text_of_opens (.inr (.inr ⟨hopens, rfl⟩))
    exact absurd (hbrace.symm.trans (List.append_eq_nil_iff.mp htext).1) (by decide)
  | @tooDeep _ delimiter hs hopens =>
    have hdelimiter : delimiter = "EOF" := hfound
    rcases hopens with ⟨-, rfl⟩ | ⟨-, rfl⟩ | ⟨-, rfl⟩ <;> exact absurd hdelimiter (by decide)
  | emptySet hs hcloses =>
    obtain ⟨t, ht⟩ := hs.past
    obtain ⟨-, -, k, -, -, rfl⟩ := hs
    have hbrace := Scanner.text_ofCursor (c := '}') hcloses rfl
    exact absurd (hbrace.symm.trans (ht.nothing_left hempty).1) (by decide)

/-- What an unknown lexeme shows is no lexeme. -/
theorem unreadable_ofCursor {k : Cursor} (h : (Scanner.ofCursor k).lexeme = .unknown)
    (before : List Char) :
    Lexical.Unreadable before k.rest (Scanner.ofCursor k).failureText.toList := by
  have hclassify : Lexical.classify k.rest = (.unknown, (Scanner.ofCursor k).text) :=
    Prod.ext h rfl
  have hcursor : (Scanner.ofCursor k).cursor.rest =
      k.rest.drop (Scanner.ofCursor k).text.length := Cursor.rest_consume _ _
  unfold Scanner.failureText
  cases htext : (Scanner.ofCursor k).text with
  | nil =>
    rw [htext] at hclassify hcursor
    rw [hcursor]
    cases hrest : k.rest with
    | nil =>
      rw [hrest] at hclassify
      cases hclassify
    | cons c rest =>
      rw [hrest] at hclassify
      show Lexical.Unreadable before (c :: rest) (String.singleton c).toList
      rw [String.toList_singleton]
      exact .character hclassify
  | cons c taken =>
    rw [htext] at hclassify
    dsimp only
    rw [String.toList_ofList]
    exact .lexeme hclassify (List.cons_ne_nil _ _)

/-- Nor is what stands behind a sigil where no name does. -/
theorem unreadable_nameless {s : Scanner} {before : List Char} (hname : s.sigilName.lexeme ≠ .name)
    (hsigil : before.getLast? = some '$' ∨ before.getLast? = some '@') (hleft : s.cursor.rest ≠ []) :
    Lexical.Unreadable before s.cursor.rest s.failHere.failureText.toList := by
  obtain ⟨c, rest, hrest⟩ := List.exists_cons_of_ne_nil hleft
  have hfound := (Scanner.failure_of_char (s := s.failHere) rfl hrest).1
  have hc := Scanner.head_behindSigil hname c (by rw [hrest]; rfl)
  rw [hfound, String.toList_singleton, hrest]
  exact .behindSigil hsigil hc

/-- Nor an object literal that breaks off before the text ends. -/
theorem unreadable_objectLiteral {k : Cursor} (hopens : (Scanner.ofCursor k).lexeme = .curlyOpen)
    (hbroken : (Scanner.ofCursor k).objectLiteral.lexeme = .unknown)
    (hleft : (Scanner.ofCursor k).objectLiteral.cursor.rest ≠ []) (before : List Char) :
    Lexical.Unreadable before k.rest (Scanner.ofCursor k).objectLiteral.failureText.toList := by
  obtain ⟨c, rest, hrest, hc⟩ := Lexical.single?_of_classify hopens (.inl rfl)
  obtain rfl := Lexical.single?_eq_punctuator (d := '{') hc rfl
  have hbehind : (Scanner.ofCursor k).cursor.rest = rest := by
    rw [Scanner.ofCursor, hrest, Lexical.classify_single hc]
    exact Cursor.rest_consume_of_append hrest
  have htext : (Scanner.ofCursor k).objectLiteral.text = '{' :: (Lexical.braced 0 rest).2 := by
    rw [Scanner.objectLiteral, Scanner.text_ofCursor hopens rfl, hbehind]
    rfl
  rw [(Scanner.failure_of_text (by simp [htext])).1, String.toList_ofList, htext, hrest]
  refine .object (Prod.ext ?_ rfl) fun hwhole => hleft ?_
  · rw [← hbehind]
    exact hbroken
  · rw [Scanner.objectLiteral, hbehind, Cursor.rest_consume, hbehind, hwhole, List.drop_length]

/-- **What cannot be read is some text.** -/
theorem Raised.unreadable (h : e.Raised text) (hcause : e.cause = .unreadable)
    (hnames : e.Names text) : ∃ before after, text.toList = before ++ after ∧
      e.span.start.byteOffset = Text.byteLength before ∧
      Lexical.Unreadable before after e.found.toList := by
  have hstart {s : Scanner} {t : Trail} (hs : s.start = t.position) :
      s.failureSpan.start.byteOffset = Text.byteLength t.text := by
    rw [Scanner.failureSpan_start, hs]
    rfl
  cases h with
  | unfit hs hend hunread =>
    obtain ⟨-, t, k, hk, hstarts, rfl⟩ := hs
    exact ⟨t.text, k.rest, hk.text_eq, hstart (Scanner.past_ofCursor hk hstarts).start_eq,
      unreadable_ofCursor (hunread hcause) _⟩
  | @nameless s _ hs hsigil hname =>
    obtain ⟨t, hpast, hlast⟩ := hs.sigil hsigil
    refine ⟨t.text, s.cursor.rest, hpast.text_eq, hstart hpast.position_eq,
      unreadable_nameless hname hlast fun hnil => ?_⟩
    -- What is named covers something.
    have hlt : s.failHere.failureSpan.start.byteOffset <
        s.failHere.failureSpan.stop.byteOffset := hnames.1
    rw [(Scanner.failure_of_end (s := s.failHere) rfl hnil).2] at hlt
    exact Nat.lt_irrefl _ hlt
  | unclosed => cases hcause
  | unclosedType => cases hcause
  | unopenedType => cases hcause
  | @brokenObject s _ hs hopens hbroken =>
    obtain ⟨-, t, k, hk, hstarts, rfl⟩ := hs
    refine ⟨t.text, k.rest, hk.text_eq, hstart (Scanner.past_ofCursor hk hstarts).start_eq,
      unreadable_objectLiteral hopens hbroken (fun hnil => ?_) _⟩
    have hunclosed : (if (Scanner.ofCursor k).objectLiteral.cursor.rest = [] then
        Cause.unclosedDelimiter "\x7b" else .unreadable) = .unreadable := hcause
    rw [if_pos hnil] at hunclosed
    cases hunclosed
  | tooDeep => cases hcause
  | emptySet => cases hcause

/-- **An error at the end of a text says that it ended**, or what it left open, unless the text ends
in a sigil whose name is missing. An error that says that something cannot be read names it,
everywhere else. -/
theorem ended_or_unreadable (h : Document.parse text = .error e ∨ TypeRef.parse text = .error e ∨
    Value.parse text = .error e) :
    (e.AtEnd text → (∃ expected, e.cause = .unexpectedEnd expected) ∨
      (∃ delimiter, e.cause = .unclosedDelimiter delimiter) ∨
      e.cause = .unreadable ∧ e.EndsInSigil text) ∧
    (e.cause = .unreadable → ¬ e.AtEnd text → e.Names text ∧
      ∃ before after, text.toList = before ++ after ∧
        e.span.start.byteOffset = Text.byteLength before ∧
        Lexical.Unreadable before after e.found.toList) := by
  have hraised := raised_of_error h
  refine ⟨fun hend => ?_, fun hcause hend => ?_⟩
  · refine (hraised.cause_of_atEnd hend).imp_right (.imp_right fun hcause => ?_)
    exact ⟨hcause, endsInSigil_of_atEnd h hend hcause⟩
  · obtain ⟨hplace, -⟩ := (refused_of_error h).atEnd_or_names
    have hnames := hplace.resolve_left hend
    exact ⟨hnames, hraised.unreadable hcause hnames⟩

/-- A directive without a name in the middle of a text. -/
theorem ended_or_unreadable_directive : ∃ e, Document.parse "\x7b a @1 \x7d" = .error e ∧
    e.found = "1" ∧ ∃ before after, "\x7b a @1 \x7d".toList = before ++ after ∧
      e.span.start.byteOffset = Text.byteLength before ∧
      Lexical.Unreadable before after e.found.toList := by
  have herror : (Document.parse "\x7b a @1 \x7d").map (fun _ => ()) =
      .error ((SyntaxError.unexpected "1" ⟨⟨1, 6, 5⟩, ⟨1, 7, 6⟩⟩ .unreadable).withNote
        (.general "expected a directive name")) := by
    decide +kernel
  cases hparse : Document.parse "\x7b a @1 \x7d" with
  | ok d =>
    rw [hparse] at herror
    cases herror
  | error e =>
    obtain ⟨-, hunreadable⟩ := ended_or_unreadable (.inl hparse)
    rw [hparse] at herror
    cases herror
    obtain ⟨-, hplace⟩ := hunreadable rfl (fun hend => absurd hend.2.2 (by decide))
    exact ⟨_, rfl, rfl, hplace⟩

/-- A text that ends in a sigil ends before the sigil's name, and is said to be unreadable. -/
theorem unreadable_at_end : ∃ e, Document.parse "\x7b a @" = .error e ∧ e.AtEnd "\x7b a @" ∧
    e.cause = .unreadable := by
  have herror : (Document.parse "\x7b a @").map (fun _ => ()) =
      .error ((SyntaxError.unexpected "EOF" (.emptyAt ⟨1, 6, 5⟩) .unreadable).withNote
        (.general "expected a directive name")) := by
    decide +kernel
  cases hparse : Document.parse "\x7b a @" with
  | ok d =>
    rw [hparse] at herror
    cases herror
  | error e =>
    rw [hparse] at herror
    cases herror
    exact ⟨_, rfl, ⟨rfl, by decide, rfl⟩, rfl⟩

end SyntaxError

end GraphQLSyntax
