import GraphQLSyntax.Grammar.Log
import GraphQLSyntax.Proofs.Grammar.Complete.Document
import GraphQLSyntax.Proofs.Grammar.Cut
import GraphQLSyntax.Proofs.Grammar.Interleaved
import GraphQLSyntax.Proofs.Grammar.Refused
import GraphQLSyntax.Proofs.Grammar.WellFormed
import GraphQLSyntax.Proofs.Text.Digits

/-!
# What the log of a text tells

A definition is logged as soon as it has been read, so the log of a text that is refused tells how
far the reading came.

* `Reader.StopsAt.definition`: where no definition can be read, one starts, or what is found there
  is at fault.
* `Document.CutAt`: how far the reading of a refused text came, from one definition to the next.
* `Document.parse_before`: cut off behind the definitions that were read, the text is accepted.
* `Definition.shown_eq_of_summary`: a line of the log is about one kind, name and position.
* `Document.log_mirrors`: what the log of a text is, whether or not it is accepted.
-/

namespace GraphQLSyntax

variable {text : String} {k k' : Cursor} {pieces : List Piece} {ds : List Definition}
  {d : Document} {e : SyntaxError}

/-! ## What is left of the text -/

/-- A text starts with the first lexeme of a definition: an opening brace, or a keyword. -/
def StartsDefinition (cs : List Char) : Prop :=
  (Lexical.classify cs).1 = .curlyOpen ∨
    ∃ word ∈ ["query", "mutation", "subscription", "fragment"],
      Lexical.classify cs = (.name, word.toList)

/-- A keyword is a name that spells it. -/
theorem Cursor.classify_of_keyword {kind : Lexeme} {word : String} (h : k.keyword = kind)
    (hkind : kind.spelling? = some word) :
    Lexical.classify k.skipTrivia.rest = (.name, word.toList) := by
  have hname : k.ahead = .name := ahead_eq_name_of_keyword h (by rw [hkind]; simp)
  have hclassify : KeywordTable.execution.classify
      (String.ofList (Lexical.classify k.skipTrivia.rest).2) = kind := (if_pos hname).symm.trans h
  obtain ⟨-, hspelling⟩ := KeywordTable.spelling?_of_classify hclassify
    (by rintro rfl; cases hkind)
  rw [hkind, Option.some.injEq] at hspelling
  rw [hspelling, String.toList_ofList]
  exact Prod.ext hname rfl

/-- What is no keyword is read as what it is. -/
theorem Cursor.ahead_eq_of_keyword {kind : Lexeme} (h : k.keyword = kind)
    (hkind : kind ∉ KeywordTable.execution.keywords) : k.ahead = kind := by
  by_cases hname : k.ahead = .name
  · have hclassify : KeywordTable.execution.classify
        (String.ofList (Lexical.classify k.skipTrivia.rest).2) = kind := (if_pos hname).symm.trans h
    by_contra hne
    exact hkind (KeywordTable.spelling?_of_classify hclassify fun heq => hne (heq ▸ hname)).1
  · rwa [keyword_eq_ahead hname] at h

namespace Reader

/-- Where a reader fails at `k`, a definition starts there, or the next lexeme is at fault. -/
def StopsAt {α : Type} (p : Reader α) (k : Cursor) : Prop :=
  ∀ e, p (.ofCursor k) = .error e →
    StartsDefinition k.skipTrivia.rest ∨ e.span.start = k.skipTrivia.position

theorem StopsAt.failUnexpected {α : Type} (expected : List String) :
    (Reader.failUnexpected expected : Reader α).StopsAt k := by
  rintro _ ⟨⟩
  exact .inr (Scanner.failureSpan_start _)

theorem StopsAt.failDefinition : Reader.failDefinition.StopsAt k := by
  intro e h
  unfold Reader.failDefinition at h
  split at h
  · cases h
    exact .inr (Scanner.failureSpan_start _)
  · exact failUnexpected _ e h

theorem StopsAt.of_keyword {α : Type} {kind : Lexeme} (p : Reader α) (word : String)
    (h : k.keyword = kind) (hkind : kind.spelling? = some word)
    (hword : word ∈ ["query", "mutation", "subscription", "fragment"]) : p.StopsAt k :=
  fun _ _ => .inl (.inr ⟨word, hword, Cursor.classify_of_keyword h hkind⟩)

/-- Where no definition can be read, it starts there, or what is found there is at fault. -/
theorem StopsAt.definition : Reader.definition.StopsAt k := by
  intro e h
  unfold Reader.definition at h
  rw [keyword_bind] at h
  revert e h
  show StopsAt _ k
  split
  · rename_i hbrace
    exact fun _ _ => .inl (.inl (Cursor.ahead_eq_of_keyword hbrace (by decide)))
  · exact .of_keyword _ "query" ‹_› rfl (by simp)
  · exact .of_keyword _ "mutation" ‹_› rfl (by simp)
  · exact .of_keyword _ "subscription" ‹_› rfl (by simp)
  · exact .of_keyword _ "fragment" ‹_› rfl (by simp)
  · exact .failDefinition
  · exact .failUnexpected _

end Reader

namespace Document

/-- The reading of a text as a document ends with the error `e` when it has read the definitions
`ds`. It stands at `offset` then, where it sets out to read another definition, or where the first
lexeme of the text cannot be read. -/
inductive CutAt (text : String) (e : SyntaxError) : (ds : List Definition) → (offset : Nat) →
    Prop where
  | unreadable (h : Reader.advance (.ofText text) = .error e) :
    CutAt text e [] e.span.start.byteOffset
  | definition {ds : List Definition} {r r' : Reading}
    (hstart : Reader.advance (.ofText text) = .ok ((), r)) (hread : Reader.ReadsDefinitions r ds r')
    (hmore : r'.scanner.lexeme ≠ .eof) (herror : Reader.definition r' = .error e) :
    CutAt text e ds r'.scanner.start.byteOffset

/-- Definitions that stand in a row at the front of a text are the document that is left if the text
is cut off behind them. -/
theorem parse_before (hchain : Definition.Chain .reading ds pieces .eof)
    (hlaid : Laid (.ofText text) pieces k) (hmore : k.ahead ≠ .eof) :
    ∃ before d, text.toList = before ++ k.skipTrivia.rest ∧
      k.skipTrivia.position.byteOffset = Text.byteLength before ∧
      Document.parse (String.ofList before) = .ok d ∧ d.definitions = ds := by
  obtain ⟨cs, hrest, -, hoffset⟩ := hlaid.spaced
  obtain ⟨gap, hgaprest, hgap, hstarts, hgapoffset⟩ := k.gap_skipTrivia
  have htext : text.toList = cs ++ k.rest := hrest
  have hne : k.skipTrivia.rest ≠ [] := fun hnil => hmore (Lexical.classify_eof_iff.mpr hnil)
  have hgaptext : GapText gap := .of_gap hgap hstarts hne
  -- The pieces stay where they are when the text ends with the gap behind them.
  have hcut := hlaid.keep hrest hgap.isCut
  have hbefore : { Cursor.ofText text with rest := cs ++ gap } =
      Cursor.ofText (String.ofList (cs ++ gap)) := by
    simp [Cursor.ofText]
  rw [hbefore] at hcut
  have hend : ({ k with rest := gap } : Cursor).ahead = .eof :=
    Cursor.ahead_of_gap (hgaptext.before [])
  obtain ⟨d, hparse, hd⟩ := parse_of_chain (g := id) Convention.counted_reading
    (by rwa [Piece.map_id, List.map_id]) hcut hend
  rw [Definition.map_id_fun, List.map_id] at hd
  refine ⟨cs ++ gap, d, ?_, ?_, hparse, hd⟩
  · rw [htext, List.append_assoc, ← hgaprest]
  · rw [hgapoffset, hoffset, Text.byteLength_append]
    exact congrArg (· + _) (Nat.zero_add _)

/-- All definitions of an accepted text are read from its front. -/
theorem attempt_of_ok (h : Document.parse text = .ok d) :
    Document.attempt text = (d.definitions, .ok d) := by
  unfold Document.parse at h
  unfold attempt at h ⊢
  cases hadvance : Reader.advance (.ofText text) with
  | error e =>
    rw [hadvance] at h
    cases h
  | ok q =>
    rw [hadvance] at h
    dsimp only at h ⊢
    generalize Production.collect _ _ _ = collected at h ⊢
    obtain ⟨definitions, ending⟩ := collected
    cases ending with
    | error e => cases h
    | ok r =>
      cases h
      rfl

/-- The definitions that are read from the front of a refused text stand in a row there. Behind them
another definition starts, or the lexeme that the text is refused for. -/
theorem attempt_of_error (h : Document.parse text = .error e) :
    ∃ ds pieces k, Document.attempt text = (ds, .error e) ∧ Laid (.ofText text) pieces k ∧
      Definition.Chain .reading ds pieces .eof ∧ k.ahead ≠ .eof ∧
      CutAt text e ds k.skipTrivia.position.byteOffset ∧
      (StartsDefinition k.skipTrivia.rest ∨ e.span.start = k.skipTrivia.position) := by
  unfold Document.parse at h
  unfold attempt at h ⊢
  cases hadvance : Reader.advance (.ofText text) with
  | error e' =>
    rw [hadvance] at h
    cases h
    have hcut := CutAt.unreadable hadvance
    unfold Reader.advance Reader.advanceAfter at hadvance
    dsimp only at hadvance
    rw [Scanner.advancePastComments_eq] at hadvance
    split at hadvance
    · rename_i hunknown
      cases hadvance
      have hstart : ((Scanner.ofCursor (Cursor.ofText text).skipTrivia).error
          .unreadable).span.start = (Cursor.ofText text).skipTrivia.position :=
        Scanner.failureSpan_start _
      refine ⟨[], [], .ofText text, rfl, rfl, .nil _, fun heof => ?_, hstart ▸ hcut, .inr hstart⟩
      rw [Cursor.ahead] at heof
      exact absurd (heof.symm.trans hunknown) (by decide)
    · cases hadvance
  | ok q =>
    obtain ⟨u, r⟩ := q
    obtain ⟨-, rfl⟩ := Reader.advance_eq_ok.mp hadvance
    rw [hadvance] at h
    dsimp only at h ⊢
    generalize hcollected : Production.collect _ _ _ = collected at h ⊢
    obtain ⟨ds, ending⟩ := collected
    cases ending with
    | ok r => cases h
    | error e' =>
      cases h
      obtain ⟨k, pieces, hlaid, hchain, hreads, -, hfails⟩ := Reader.collect_definitions hcollected
      obtain ⟨hmore, hrefused⟩ := hfails e rfl
      exact ⟨ds, pieces, k, rfl, hlaid, hchain, hmore, .definition hadvance hreads hmore hrefused,
        Reader.StopsAt.definition e hrefused⟩

end Document

/-! ## What lines show -/

namespace Definition

/-- What is logged of a definition: the kind of an operation, the name that it has, and the line and
the column where it starts. -/
def shown : Definition → Option OperationKind × Option String × Nat × Nat
  | operation o => (some o.kind, o.name.map (·.text), o.span.start.line, o.span.start.column)
  | fragment f => (none, some f.name.text, f.span.start.line, f.span.start.column)

/-- A definition is called by a name, if by anything. -/
def Named (x : Definition) : Prop := ∀ name ∈ x.shown.2.1, Text.IsName name

end Definition

theorem Text.IsName.notMem {name : String} {c : Char} (h : Text.IsName name)
    (hc : c.isAlphanum = false) (hne : c ≠ '_') : c ∉ name.toList := by
  obtain ⟨d, ds, hname, hd, hds⟩ := h
  rw [hname]
  intro hmem
  rcases List.mem_cons.mp hmem with rfl | hmem
  · rcases hd with hd | hd
    · simp [Char.isAlphanum, hd] at hc
    · exact hne hd
  · rcases hds c hmem with hd | hd
    · simp [hc] at hd
    · exact hne hd

theorem OperationKind.render_append_inj {a b : OperationKind} {xs ys : List Char}
    (h : a.render.toList ++ xs = b.render.toList ++ ys) : a = b ∧ xs = ys := by
  cases a <;> cases b <;> simp_all [render]

namespace Definition

variable {x y : Definition}

/-- A quoted name, and a position behind it, as they are logged. -/
def quotedAt (quote : Char) (name between : String) (p : Position) : List Char :=
  name.toList ++ quote :: (between.toList ++ (p.render.toList ++ ".".toList))

/-- The quote ends the name, and the position is what stands between the rest. -/
theorem quotedAt_inj {quote : Char} {name name' between : String} {p q : Position}
    (hname : quote ∉ name.toList) (hbetween : quote ∉ between.toList ++ ".".toList)
    (hquote : quote.isDigit = false ∧ quote ≠ ':')
    (h : quotedAt quote name between p = quotedAt quote name' between q) :
    name = name' ∧ p.line = q.line ∧ p.column = q.column := by
  rw [List.mem_append, not_or] at hbetween
  have hposition : quote ∉ p.render.toList := by
    intro hmem
    rcases Position.mem_render hmem with hdigit | hcolon
    · rw [hquote.1] at hdigit
      cases hdigit
    · exact hquote.2 hcolon
  have hbehind : quote ∉ between.toList ++ (p.render.toList ++ ".".toList) := by
    simp only [List.mem_append, hbetween.1, hposition, hbetween.2, or_self, not_false_eq_true]
  obtain ⟨hnames, -, htails⟩ := (List.append_cons_inj_of_notMem hname hbehind).mp h
  have hpositions := List.append_cancel_right (List.append_cancel_left htails)
  exact ⟨String.toList_inj.mp hnames, Position.render_inj (String.toList_inj.mp hpositions)⟩

/-- The name of an operation, and a position behind it, as they are logged. -/
def nameAt (name : Option String) (p : Position) : List Char :=
  match name with
  | some name => 'S' :: ("ome(\"".toList ++ quotedAt '"' name ") at " p)
  | none => 'N' :: ("one at ".toList ++ (p.render.toList ++ ".".toList))

theorem nameAt_inj {name name' : Option String} {p q : Position}
    (hname : ∀ text ∈ name, Text.IsName text) (h : nameAt name p = nameAt name' q) :
    name = name' ∧ p.line = q.line ∧ p.column = q.column := by
  cases name with
  | none =>
    cases name' with
    | none =>
      have htail := (List.cons.inj h).2
      have hpositions := List.append_cancel_right (List.append_cancel_left htail)
      exact ⟨rfl, Position.render_inj (String.toList_inj.mp hpositions)⟩
    | some name' => exact absurd (List.cons.inj h).1 (by decide)
  | some name =>
    cases name' with
    | none => exact absurd (List.cons.inj h).1 (by decide)
    | some name' =>
      have htail := (List.cons.inj h).2
      obtain ⟨rfl, hposition⟩ := quotedAt_inj ((hname name rfl).notMem (by decide) (by decide))
        (by decide) (by decide) (List.append_cancel_left htail)
      exact ⟨rfl, hposition⟩

theorem toList_summary_operation (o : Operation) : (operation o).summary.toList =
    "Parsed ".toList ++ (o.kind.render.toList ++
      (" operation ".toList ++ nameAt (o.name.map (·.text)) o.span.start)) := by
  cases hname : o.name with
  | none =>
    have hsummary : (operation o).summary = "Parsed " ++ (o.kind.render ++ (" operation " ++
        ("None" ++ (" at " ++ (o.span.start.render ++ "."))))) := by
      unfold summary
      dsimp only
      rw [hname]
      simp only [String.append_assoc]
    have hnone (cs : List Char) : "None".toList ++ (" at ".toList ++ cs) =
        'N' :: ("one at ".toList ++ cs) := by
      simp
    simp only [hsummary, String.toList_append, hnone, nameAt, Option.map]
  | some token =>
    have hsummary : (operation o).summary = "Parsed " ++ (o.kind.render ++ (" operation " ++
        ("Some(\"" ++ (token.text ++ ("\")" ++ (" at " ++ (o.span.start.render ++ "."))))))) := by
      unfold summary
      dsimp only
      rw [hname]
      simp only [String.append_assoc]
    have hsome (cs : List Char) : "Some(\"".toList ++ cs = 'S' :: ("ome(\"".toList ++ cs) := by
      simp
    have hquote (cs : List Char) : "\")".toList ++ (" at ".toList ++ cs) =
        '"' :: (") at ".toList ++ cs) := by
      simp
    simp only [hsummary, String.toList_append, hsome, hquote, nameAt, quotedAt, Option.map]

theorem toList_summary_fragment (f : Fragment) : (fragment f).summary.toList =
    "Parsed fragment `".toList ++ quotedAt '`' f.name.text " at " f.span.start := by
  have hsummary : (fragment f).summary =
      "Parsed fragment `" ++ (f.name.text ++ ("` at " ++ (f.span.start.render ++ "."))) := by
    unfold summary
    simp only [String.append_assoc]
  have hquote (cs : List Char) : "` at ".toList ++ cs = '`' :: (" at ".toList ++ cs) := by
    simp
  simp only [hsummary, String.toList_append, hquote, quotedAt]

/-- No operation is logged as a fragment is. -/
theorem summary_operation_ne (o : Operation) (f : Fragment) :
    (operation o).summary ≠ (fragment f).summary := by
  have hparsed : "Parsed fragment `".toList = "Parsed ".toList ++ ('f' :: "ragment `".toList) := by
    decide
  have hhead : o.kind.render.toList.head? ≠ some 'f' := by
    cases o.kind <;> decide
  have hne : o.kind.render.toList ≠ [] := by
    cases o.kind <;> decide
  intro h
  have hchars := congrArg String.toList h
  rw [toList_summary_operation, toList_summary_fragment, hparsed, List.append_assoc] at hchars
  have hkind := congrArg List.head? (List.append_cancel_left hchars)
  rw [List.head?_append_of_ne_nil _ hne] at hkind
  exact hhead hkind

/-- A line of the log shows the kind, the name and the position of what it is about. -/
theorem shown_eq_of_summary (hx : x.Named) (h : x.summary = y.summary) : x.shown = y.shown := by
  cases x with
  | operation o =>
    cases y with
    | operation o' =>
      have hchars := congrArg String.toList h
      rw [toList_summary_operation, toList_summary_operation] at hchars
      obtain ⟨hkind, hrest⟩ := OperationKind.render_append_inj (List.append_cancel_left hchars)
      obtain ⟨hname, hline, hcolumn⟩ := nameAt_inj hx (List.append_cancel_left hrest)
      simp only [shown, hkind, hline, hcolumn]
      rw [show o.name.map (·.text) = o'.name.map (·.text) from hname]
    | fragment f => exact absurd h (summary_operation_ne o f)
  | fragment f =>
    cases y with
    | operation o => exact absurd h.symm (summary_operation_ne o f)
    | fragment f' =>
      have hchars := congrArg String.toList h
      rw [toList_summary_fragment, toList_summary_fragment] at hchars
      obtain ⟨hname, hline, hcolumn⟩ := quotedAt_inj
        ((hx f.name.text rfl).notMem (by decide) (by decide)) (by decide) (by decide)
        (List.append_cancel_left hchars)
      simp only [shown, hname, hline, hcolumn]

end Definition

/-! ## Lines of the log -/

namespace LogLine

/-- The line that names the size of a text. -/
def opening (text : String) : LogLine :=
  ⟨.debug, "Parsing execution document (" ++ toString text.utf8ByteSize ++ " bytes)..."⟩

/-- The line about a definition. -/
def ofDefinition (x : Definition) : LogLine := ⟨.trace, x.summary⟩

/-- The line that counts operations and fragments. -/
def closing (operations fragments : Nat) : LogLine :=
  ⟨.debug, "Parsed " ++ toString operations ++ " operations and " ++ toString fragments ++
    " fragments."⟩

end LogLine

namespace Document

theorem named_of_parse (h : Document.parse text = .ok d) : ∀ x ∈ d.definitions, x.Named := by
  intro x hx
  have hnode := (standsIn_of_parse h (.node x.node) (List.mem_map_of_mem hx)).wellFormedIn
  cases x with
  | operation o =>
    intro name hname
    obtain ⟨token, htoken, rfl⟩ := Option.map_eq_some_iff.mp hname
    exact (hnode.2.2.1 token htoken).2
  | fragment f =>
    rintro name ⟨⟩
    exact hnode.1.2

theorem log_of_ok (h : Document.parse text = .ok d) : Document.log text =
    .opening text :: d.inSourceOrder.map .ofDefinition ++
      [.closing d.operations.length d.fragments.length] := by
  obtain ⟨pieces, k, hspelled⟩ := spelled_of_parse h
  unfold Document.log
  rw [attempt_of_ok h, hspelled.inSourceOrder_eq]
  rfl

/-- **The log of a text mirrors its document.** An accepted text is logged as its size, a line for
each of its operations and fragments, in the order in which these start, and their numbers. Each
line shows what it is about. The log of a refused text ends with the lines for definitions, and
these are the lines for what stands in front of the definition that cannot be read, or of the lexeme
that starts none and that the text is refused for: up to there, the text is accepted. -/
theorem log_mirrors (text : String) :
    (∀ d, Document.parse text = .ok d →
      Document.log text = .opening text :: d.inSourceOrder.map .ofDefinition ++
        [.closing d.operations.length d.fragments.length] ∧
      d.inSourceOrder.Pairwise (fun x y => x.span.start.byteOffset < y.span.start.byteOffset) ∧
      d.inSourceOrder.filterMap Definition.operation? = d.operations ∧
      d.inSourceOrder.filterMap Definition.fragment? = d.fragments ∧
      ∀ x ∈ d.inSourceOrder, ∀ y, LogLine.ofDefinition x = .ofDefinition y → x.shown = y.shown) ∧
    ∀ e, Document.parse text = .error e → ∃ before rest d,
      text.toList = before ++ rest ∧
      CutAt text e d.definitions (Text.byteLength before) ∧
      (StartsDefinition rest ∨ e.span.start.byteOffset = Text.byteLength before) ∧
      Document.parse (String.ofList before) = .ok d ∧
      Document.log text = .opening text :: d.inSourceOrder.map .ofDefinition ∧
      Document.log (String.ofList before) =
        .opening (String.ofList before) :: d.inSourceOrder.map .ofDefinition ++
          [.closing d.operations.length d.fragments.length] := by
  refine ⟨fun d h => ?_, fun e h => ?_⟩
  · obtain ⟨pieces, k, hspelled⟩ := spelled_of_parse h
    have horder := hspelled.inSourceOrder_eq
    refine ⟨log_of_ok h, ?_, ?_, ?_, ?_⟩
    · rw [horder]
      exact hspelled.pairwise_start
    · rw [horder, operations]
    · rw [horder, fragments]
    · intro x hx y hline
      rw [horder] at hx
      exact Definition.shown_eq_of_summary (named_of_parse h x hx) (LogLine.mk.inj hline).2
  · obtain ⟨ds, pieces, k, hattempt, hlaid, hchain, hmore, hcut, hnext⟩ := attempt_of_error h
    obtain ⟨before, d, htext, hoffset, hparse, rfl⟩ := parse_before hchain hlaid hmore
    obtain ⟨_, _, hspelled⟩ := spelled_of_parse hparse
    refine ⟨before, k.skipTrivia.rest, d, htext, hoffset ▸ hcut, ?_, hparse, ?_, log_of_ok hparse⟩
    · exact hnext.imp_right fun hstart => (congrArg Position.byteOffset hstart).trans hoffset
    · unfold Document.log
      rw [hattempt, hspelled.inSourceOrder_eq]
      exact List.append_nil _

/-- A fragment in front of an operation, and an operation that is complete in a text which is refused
for the character behind it. -/
theorem log_mirrors_unreadable : ∃ accepted refused d e,
    accepted = "fragment F on T \x7b a \x7d\n\x7b b \x7d" ∧
      refused = "fragment F on T \x7b a \x7d query Q \x7b b \x7d ~" ∧
      Document.parse accepted = .ok d ∧
      Document.log accepted = .opening accepted :: d.inSourceOrder.map .ofDefinition ++
        [.closing d.operations.length d.fragments.length] ∧
      Document.log accepted = [⟨.debug, "Parsing execution document (27 bytes)..."⟩,
        ⟨.trace, "Parsed fragment `F` at 1:1."⟩, ⟨.trace, "Parsed query operation None at 2:1."⟩,
        ⟨.debug, "Parsed 1 operations and 1 fragments."⟩] ∧
      Document.parse refused = .error e ∧
      (∃ before rest d, refused.toList = before ++ rest ∧
        CutAt refused e d.definitions (Text.byteLength before) ∧
        (StartsDefinition rest ∨ e.span.start.byteOffset = Text.byteLength before) ∧
        Document.parse (String.ofList before) = .ok d ∧
        Document.log refused = .opening refused :: d.inSourceOrder.map .ofDefinition) ∧
      Document.log refused = [⟨.debug, "Parsing execution document (37 bytes)..."⟩,
        ⟨.trace, "Parsed fragment `F` at 1:1."⟩] := by
  have haccepted : (Document.parse "fragment F on T \x7b a \x7d\n\x7b b \x7d").isOk = true := by
    decide +kernel
  have hrefused : (Document.parse
      "fragment F on T \x7b a \x7d query Q \x7b b \x7d ~").isOk = false := by
    decide +kernel
  cases hparse : Document.parse "fragment F on T \x7b a \x7d\n\x7b b \x7d" with
  | error e =>
    rw [hparse] at haccepted
    cases haccepted
  | ok d =>
    cases herror : Document.parse "fragment F on T \x7b a \x7d query Q \x7b b \x7d ~" with
    | ok d =>
      rw [herror] at hrefused
      cases hrefused
    | error e =>
      obtain ⟨before, rest, d', htext, hcut, hnext, hbefore, hlog, -⟩ := (log_mirrors _).2 e herror
      exact ⟨_, _, d, e, rfl, rfl, hparse, ((log_mirrors _).1 d hparse).1, by decide +kernel,
        herror, ⟨before, rest, d', htext, hcut, hnext, hbefore, hlog⟩, by decide +kernel⟩

end Document

end GraphQLSyntax
