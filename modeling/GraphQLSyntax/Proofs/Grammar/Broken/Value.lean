import GraphQLSyntax.Proofs.Grammar.Broken.Repeated
import GraphQLSyntax.Proofs.Grammar.Sound.TypeRef
import GraphQLSyntax.Proofs.Grammar.Sound.Value

/-!
# Values and types that break off

* `Reader.breaks_value`: a value breaks off in a list or in an object literal.
* `Reader.breaks_typeRef`: a type breaks off behind its name.
-/

namespace GraphQLSyntax

/-- An object literal that breaks off at the end of a text has taken all that is left. -/
theorem Scanner.braced_of_broken {s : Scanner} (h : s.objectLiteral.lexeme = .unknown)
    (hend : s.objectLiteral.cursor.rest = []) :
    Lexical.braced 0 s.cursor.rest = (.unknown, s.cursor.rest) := by
  rw [Scanner.objectLiteral, Cursor.rest_consume] at hend
  exact Prod.ext h ((Lexical.braced_isPrefix 0 s.cursor.rest).eq_of_length_le
    (List.drop_eq_nil_iff.mp hend))

namespace Reader

variable {k : Cursor} {sets : Bool}

/-! ## Values -/

theorem BreaksFrom.literal {kind : Lexeme} (h : k.ahead = kind)
    (hkind : kind ∈ [.int, .float, .string, .blockString]) :
    (Reader.literal kind).BreaksFrom sets (fun v items => items = [v.item]) k := by
  refine (BreaksFrom.take (fun t => (Value.scalar (.literal kind t.text t.span)).item) h
    (isControl_literal hkind) (spelled_literal hkind)).map ?_
  rintro t _ ⟨rfl, -⟩
  rfl

theorem BreaksFrom.namedValue (h : k.ahead = .name) :
    Reader.namedValue.BreaksFrom sets (fun v items => items = [v.item]) k := by
  refine (BreaksFrom.take (fun t => (Value.ofName t).item) h rfl spelled_ofName).map ?_
  rintro t _ ⟨rfl, -⟩
  rfl

/-- The error where an object literal breaks off points at the brace that it starts with. -/
theorem pointsBack_brokenObject {s : Scanner} {cause : Cause}
    (hlaid : (Terminal.lexeme .curlyOpen "\x7b").LaidAt k)
    (hs : s = (Reading.ofCursor k).scanner) (message : String) (pieces : List Piece) :
    ((s.objectLiteral.error cause).withNote (.pointing message s.span)).PointsBack pieces := by
  refine (SyntaxError.PointsBack.error _ _ _).withNote ?_
  rintro span ⟨⟩
  have htext : s.objectLiteral.text = '{' :: (Lexical.braced 0 s.cursor.rest).2 := by
    rw [Scanner.objectLiteral, hs, Reading.ofCursor, hlaid.scanner_eq]
    rfl
  refine .inr ⟨?_, ?_⟩
  · show s.objectLiteral.failureText.toList.head? = some '{'
    rw [(Scanner.failure_of_text (by rw [htext]; exact List.cons_ne_nil _ _)).1,
      String.toList_ofList, htext]
    rfl
  · show s.span = ⟨s.objectLiteral.failureSpan.start, _⟩
    rw [Scanner.failureSpan_start, Scanner.objectLiteral, Scanner.span, hs, Reading.ofCursor,
      hlaid.scanner_eq]
    rfl

/-- An object literal that is all the rest of a text is left open. -/
theorem stops_brokenObject {e : SyntaxError} (h : k.ahead = .curlyOpen) {s : Scanner}
    (hs : s = (Reading.ofCursor k).scanner) (hbroken : s.objectLiteral.lexeme = .unknown)
    (he : (s.objectLiteral.error (if s.objectLiteral.cursor.rest = [] then
      .unclosedDelimiter "\x7b" else .unreadable)).withNote
        (.pointing "object literal opened here" s.span) = e) :
    ∃ v : Value, Item.Stops e sets k [v.item] := by
  subst he
  have hlaid := k.laidAt_word (c := '{') h rfl
  have hspan : s.span = k.spanOf (.lexeme .curlyOpen (String.singleton '{')) := by
    rw [hs, Reading.ofCursor, hlaid.scanner_eq]
    rfl
  have hstart : s.objectLiteral.failureSpan.start = k.skipTrivia.position := by
    rw [Scanner.failureSpan_start, hs]
    rfl
  have hahead : k.ahead ≠ .eof := by
    rw [h]
    decide
  refine ⟨.scalar (.literal .object "" ⟨.start, .start⟩), ⟨[], k, .nothing _ _, rfl,
    .of_start hstart fun _ => hahead, pointsBack_brokenObject hlaid hs _ _⟩, fun hof => ?_⟩
  by_cases hend : s.objectLiteral.cursor.rest = []
  · have hbraced := Scanner.braced_of_broken hbroken hend
    rw [hs, hlaid.cursor_eq] at hbraced
    refine .of_leftOpen (.object rfl rfl hbraced) (Laid.single hlaid)
      ⟨?_, ⟨"object literal opened here", ?_⟩, Nat.le_of_eq ?_⟩
    · rw [if_pos hend]
      rfl
    · rw [← hspan]
      rfl
    · exact (congrArg Position.byteOffset hstart).symm
  · rw [if_neg hend] at hof
    rcases hof with ⟨_, ⟨⟩⟩ | ⟨_, ⟨⟩⟩

theorem BreaksFrom.object (h : k.ahead = .curlyOpen) :
    Reader.object.BreaksFrom sets (fun v items => items = [v.item]) k := by
  intro e he
  have hlaid := k.laidAt_word (c := '{') h rfl
  unfold Reader.object at he
  dsimp only at he
  split at he
  · rename_i hbroken
    obtain ⟨v, hstops⟩ : ∃ v : Value, Item.Stops e sets k [v.item] :=
      stops_brokenObject h rfl hbroken (Except.error.inj he)
    exact ⟨v, _, rfl, hstops⟩
  -- The literal is read as a whole, and what stands behind it is refused.
  · rename_i hknown
    rcases bind_eq_error.mp he with he | ⟨-, -, -, ⟨⟩⟩
    have hplain := take_error he
    dsimp only [Scanner.objectLiteral] at hplain hknown
    rw [hlaid.cursor_eq] at hplain hknown
    obtain ⟨body, hbraced⟩ := Lexical.exists_eq_object hknown
    rw [hbraced, ← Cursor.behind_cons (t := .object (String.ofList ('{' :: body)))
      String.toList_ofList k .curlyOpen] at hplain
    have hobject := Cursor.laidAt_object_iff.mpr ⟨hlaid, body, String.toList_ofList, hbraced⟩
    have hspelled : Item.Spelled .reading [(Value.scalar (.literal .object (String.ofList ('{' :: body))
        (k.spanOf (.object (String.ofList ('{' :: body)))))).item] [⟨_, _⟩] :=
      spelled_scalar (Token.isLiteral_literal _ (by decide) (by rintro ⟨⟩)) rfl
    exact ⟨_, _, rfl, .behind hspelled (.single hobject) hplain⟩

/-- A list is left open, or a value in it. -/
theorem Breaks.list {item : Production Value} {depth : Nat}
    (hitem : item.read.Reads fun v items _ => items = [v.item] ∧ v.listDepth ≤ depth)
    (hbreaks : item.read.Breaks true fun v items => items = [v.item]) :
    (Reader.list item).Breaks sets fun v items => items = [v.item] := by
  intro k
  refine BreaksFrom.spanned .value true (U := fun build items => ∃ values : List Value,
    build = (fun span => .list values span) ∧
      items = .word .squareOpen "[" :: (values.map Value.item ++ [.word .squareClose "]"])) ?_ ?_
  · intro e he
    obtain ⟨values, hstops⟩ := Production.stops_enclosed (c := '[') (d := ']') rfl rfl
      (.inr (.inl rfl)) rfl hitem hbreaks (fun _ => rfl) he
    exact ⟨_, _, ⟨values, rfl, rfl⟩, hstops⟩
  · rintro _ _ span ⟨values, rfl, rfl⟩
    exact ⟨⟨by simp [Node.Worded, Node.parts, Node.valueParts], .list values span⟩, fun _ => rfl,
      rfl⟩

theorem Breaks.valueWith {list : Reader Value}
    (hlist : list.Breaks sets fun v items => items = [v.item]) :
    (Reader.valueWith list).Breaks sets fun v items => items = [v.item] := by
  intro k
  have hliteral {kind : Lexeme} (h : k.ahead = kind)
      (hkind : kind ∈ [.int, .float, .string, .blockString]) :
      (Reader.literal kind).BreaksFrom sets (fun v items => items = [v.item]) k := .literal h hkind
  refine BreaksFrom.lexeme_bind ?_
  split
  · exact BreaksFrom.namedValue (by assumption)
  · exact hlist k
  · exact BreaksFrom.object (by assumption)
  · exact hliteral (by assumption) (by decide)
  · exact hliteral (by assumption) (by decide)
  · exact hliteral (by assumption) (by decide)
  · exact hliteral (by assumption) (by decide)
  · exact .fail (.error nofun nofun nofun) (b := default) rfl
  · exact .fail (.error nofun nofun nofun) (b := default) rfl

theorem breaks_value_depth {depth : Nat} (hdepth : depth ≤ maxListDepth) :
    (Production.value depth).read.Breaks sets fun v items => items = [v.item] := by
  induction depth generalizing sets with
  | zero => exact Breaks.valueWith fun _ => .fail (.tooDeep _) (b := default) rfl
  | succ depth ih =>
    have hle := Nat.le_of_lt hdepth
    exact Breaks.valueWith (Breaks.list (reads_value_depth hle) (ih hle))

theorem breaks_value : value.Breaks sets fun v items => items = [v.item] :=
  breaks_value_depth (Nat.le_refl _)

/-! ## Types -/

/-- Brackets and marks may stand behind the name of a type, as long as they close no more lists than
are open. The brackets that are missing may follow them. -/
theorem form_typeRef {name : Token} (hname : name.IsPlainName) (brackets : Nat) {taken : List Char}
    (htaken : ∀ c ∈ taken, Lexical.isIgnorable c ∨ c = ']' ∨ c = '!')
    (hcount : taken.count ']' ≤ countedLists brackets) : ∃ t : TypeRef, t.name = name ∧
      (Node.typeRef t).Form .reading (Item.openings brackets ++ t.name.item ::
        (Lexical.marks taken ++ List.replicate (countedLists brackets - taken.count ']') ']').map
          fun c => .terminal (.mark c)) := by
  let wrapping := Wrapping.ofClosings
    (taken ++ List.replicate (countedLists brackets - taken.count ']') ']')
  have hclosed : wrapping.Closed
      (Lexical.marks taken ++ List.replicate (countedLists brackets - taken.count ']') ']') := by
    rw [← Lexical.marks_replicate, ← Lexical.marks_append]
    refine Wrapping.closed_ofClosings fun c hc => ?_
    rcases List.mem_append.mp hc with hc | hc
    · exact htaken c hc
    · exact .inr (.inl (List.eq_of_mem_replicate hc))
  refine ⟨⟨name, wrapping, ⟨.start, .start⟩⟩, rfl, ?_, .typeRef _ ?_ hclosed⟩
  · rintro t ht
    rw [Part.token.inj (List.mem_singleton.mp ht)]
    exact hname.terminal_eq
  · show countedLists brackets = Wrapping.dimensions _
    rw [Wrapping.dimensions_ofClosings, List.count_append, List.count_replicate_self]
    omega

/-- A name is still to come, and all the brackets behind it. -/
theorem form_someName (brackets : Nat) : ∃ t : TypeRef, t.name = someName ∧
    (Node.typeRef t).Form .reading (Item.openings brackets ++ t.name.item ::
      (List.replicate (countedLists brackets) ']').map fun c => .terminal (.mark c)) := by
  have hnothing : ∀ c ∈ ([] : List Char), Lexical.isIgnorable c ∨ c = ']' ∨ c = '!' := by simp
  exact form_typeRef isPlainName_someName brackets hnothing (Nat.zero_le _)

/-- The opening brackets of a type are refused as too many, or what stands behind them is. -/
theorem openings_error {e : SyntaxError} (he : openings (.ofCursor k) = .error e) :
    ∃ brackets, Item.Stops e sets k (Item.openings brackets) := by
  unfold openings at he
  rw [lexeme_bind, Reading.lexeme_ofCursor] at he
  split at he
  · rename_i hopen
    have hlaid := k.laidAt_word hopen rfl
    rw [cursor_bind, hlaid.cursor_eq] at he
    split at he
    · cases he
      exact ⟨0, .of_plain (.tooDeep _) _⟩
    · obtain ⟨k', pieces, hskip, hpieces, hspelled⟩ := laid_openings hopen rfl rfl
      rw [skipText_bind] at he
      rcases bind_eq_error.mp he with he | ⟨-, -, -, ⟨⟩⟩
      refine ⟨_, .behind hspelled hpieces (advanceAfter_error ?_ he)⟩
      dsimp only
      rw [hlaid.cursor_eq, hskip]
  · cases he

end Reader

/-- White space is looked past behind the name of a type. -/
theorem SyntaxError.ComesUp.of_ignorable {e : SyntaxError} {k : Cursor} {ignored rest : List Char}
    (hrest : k.rest = ignored ++ rest) (hignored : ∀ c ∈ ignored, Lexical.isIgnorable c)
    (hhead : ∀ c ∈ rest.head?, Lexical.isIgnorable c = false)
    (h : e.span.start = (k.consume ignored).position)
    (hread : e.cause = .unreadable → k.ahead ≠ .eof) : e.ComesUp k := by
  have htake : k.rest.takeWhile Lexical.isIgnorable = ignored := by
    rw [hrest, List.takeWhile_append_of_pos hignored]
    cases rest with
    | nil => simp
    | cons c cs => rw [List.takeWhile_cons_of_neg (by simp [hhead c rfl]), List.append_nil]
  exact ⟨⟨_, .ignorable, by rw [htake, Cursor.passAll_read, h]⟩, hread⟩

namespace Reader

variable {k : Cursor} {sets : Bool}

/-- White space is taken with the brackets and marks of a type, and left behind them. -/
theorem exists_ignored {taken : List Char} {k' : Cursor} (htaken : taken <+: k.rest)
    (hk' : k' = k.consume (Lexical.trimmed taken)) : ∃ ignored,
      (∀ c ∈ ignored, Lexical.isIgnorable c) ∧ k'.rest = ignored ++ (k.consume taken).rest ∧
      k.consume taken = k'.consume ignored := by
  obtain ⟨ignored, htrimmed, hignored⟩ := Lexical.trimmed_append taken
  refine ⟨ignored, hignored, ?_, by rw [hk', ← Cursor.consume_append, ← htrimmed]⟩
  rw [hk']
  refine Cursor.rest_consume_of_append ?_
  rw [← List.append_assoc, ← htrimmed, Cursor.rest_consume]
  exact (List.prefix_iff_eq_append.mp htaken).symm

/-- What follows the name of a type is refused behind the brackets and marks there. It may be that
brackets are missing. -/
theorem closings_error {r : Reading} {lists : Nat} {opener : Span} {e : SyntaxError}
    {taken : List Char} {k' : Cursor} (hk : r.scanner.cursor = k)
    (htaken : taken = Lexical.closings lists k.rest)
    (hk' : k' = k.consume (Lexical.trimmed taken)) (he : closings lists opener r = .error e) :
    e.Plain k' ∨ e.ComesUp k' ∧ taken.count ']' < lists ∧
      (∀ c ∈ (k'.rest.dropWhile Lexical.isIgnorable).head?, c ≠ ']' ∧ c ≠ '!') ∧
      e.cause = .unclosedDelimiter "[" ∧ e.notes = [.pointing "list type opened here" opener] ∧
      k'.position.byteOffset ≤ e.span.start.byteOffset := by
  have hhead := Lexical.head_behind_closings lists k.rest
  obtain ⟨ignored, hignored, hrest, hcursor⟩ :=
    exists_ignored (htaken ▸ Lexical.closings_isPrefix lists k.rest) hk'
  rw [← htaken, ← Cursor.rest_consume] at hhead
  -- What is refused here stands behind the white space.
  have hcomes (s : Scanner) (cause : Cause) (hs : s.cursor = k.consume taken)
      (hcause : cause ≠ .unreadable) : (s.failHere.error cause).ComesUp k' := by
    refine .of_ignorable hrest hignored (fun c hc => (hhead c hc).1) ?_ fun h => absurd h hcause
    show (Scanner.failureSpan _).start = _
    rw [Scanner.failureSpan_start, Scanner.failHere, hs, hcursor]
  unfold closings at he
  rw [cursor_bind, hk, ← htaken, skipText_bind, cursor_bind] at he
  dsimp only at he
  rw [hk] at he
  split at he
  · cases he
    exact .inl ⟨hcomes _ _ rfl (by rintro ⟨⟩), by rintro (⟨_, ⟨⟩⟩ | ⟨_, ⟨⟩⟩), by simp⟩
  · rename_i hclose
    split at he
    · rename_i hcount
      obtain rfl := Except.error.inj he
      have herror := hcomes { r.scanner with cursor := k.consume taken } (.unclosedDelimiter "[") rfl
        (by rintro ⟨⟩)
      refine .inr ⟨⟨herror.start_at, by rintro ⟨⟩⟩, hcount, ?_, rfl, rfl, ?_⟩
      · rw [hrest, List.dropWhile_append_of_pos hignored, Cursor.rest_consume, htaken,
          Lexical.dropWhile_behind_closings, ← htaken, ← Cursor.rest_consume]
        intro c hc
        refine ⟨?_, (hhead c hc).2⟩
        rintro rfl
        exact hclose hc
      · show _ ≤ (Scanner.failureSpan _).start.byteOffset
        rw [Scanner.failureSpan_start]
        show _ ≤ (k.consume taken).position.byteOffset
        rw [hcursor, Cursor.byteOffset_consume]
        exact Nat.le_add_right _ _
    · rcases bind_eq_error.mp he with he | ⟨-, -, -, ⟨⟩⟩
      refine .inl (advanceAfter_error ?_ he)
      show (k.consume taken).skipTrivia = _
      rw [hcursor, Cursor.skipTrivia_consume hrest hignored]

/-- A type breaks off behind its name, or behind the brackets and marks that follow. -/
theorem stops_closings {e : SyntaxError} {r : Reading} {k₁ : Cursor} {brackets : Nat}
    {word : String} {pieces : List Piece} (hlaid : Laid k pieces k₁)
    (hspelled : Item.Spelled .reading (Item.openings brackets) pieces)
    (hword : (Terminal.lexeme .name word).LaidAt k₁)
    (hk : r.scanner.cursor = k₁.behind (.lexeme .name word))
    (he : closings (countedLists brackets) (Reading.ofCursor k).scanner.token.span r =
      .error e) : ∃ t : TypeRef, Item.Stops e sets k [t.item] := by
  have hplain : (Token.plain .name word (k₁.spanOf (.lexeme .name word))).IsPlainName := ⟨rfl, rfl⟩
  obtain ⟨pieces', hlaid', hspelled'⟩ :=
    laid_closings (countedLists brackets) (k₁.behind (.lexeme .name word))
  obtain ⟨t, ht, hform⟩ := form_typeRef hplain brackets
    (fun c => Lexical.mem_closings) (Lexical.count_closings_le _ _)
  have hwithin := hlaid.append ((Laid.single hword).append hlaid')
  have hname : Item.Spelled .reading [t.name.item]
      [⟨.lexeme .name word, k₁.spanOf (.lexeme .name word)⟩] := by
    rw [ht]
    exact spelled_token rfl
  have hfront := hspelled.append (hname.append hspelled')
  have hwritten := hform
  rw [List.map_append, ← List.cons_append, ← List.append_assoc] at hwritten
  obtain hplain | ⟨hcomes, hcount, hrest, hcause, hnotes, hle⟩ := closings_error hk rfl rfl he
  · exact ⟨t, .of_form hwritten ((Item.Stops.behind hfront hwithin hplain).append _)⟩
  · cases brackets with
    | zero => exact absurd hcount (Nat.not_lt_zero _)
    | succ brackets =>
      obtain _ | ⟨_, span, hmarks⟩ := hspelled
      obtain rfl : span = k.spanOf (.lexeme .squareOpen "[") := hlaid.2.1
      rw [hlaid.1.token_eq] at hnotes
      refine ⟨t, ⟨_, _, .of_form hwritten (.front hfront), hwithin, hcomes, ?_⟩, fun _ =>
        .of_leftOpen (.type hform ?_ hfront hrest) hwithin
          ⟨hcause, ⟨_, hnotes⟩, Nat.le_trans hwithin.start_le hle⟩⟩
      · intro note hnote span hspan
        rw [hnotes, List.mem_singleton] at hnote
        subst hnote
        cases hspan
        exact .inl ⟨_, List.mem_cons_self, .inr (.inl rfl), rfl⟩
      · exact List.mem_replicate.mpr ⟨by omega, rfl⟩

/-- A type breaks off in front of its name, or behind it. -/
theorem wrappedName_error {e : SyntaxError} (he : wrappedName (.ofCursor k) = .error e) :
    ∃ t : TypeRef, Item.Stops e sets k [t.item] := by
  unfold wrappedName at he
  rw [token_bind] at he
  rcases bind_eq_error.mp he with he | ⟨lists, r₁, hopenings, he⟩
  · obtain ⟨brackets, hstops⟩ := openings_error he
    obtain ⟨t, -, hform⟩ := form_someName brackets
    exact ⟨t, .of_form hform (hstops.append _)⟩
  obtain ⟨k₁, brackets, pieces, hscanner, hlaid, hspelled, rfl, -⟩ := spelled_openings hopenings
  rw [lexeme_bind, hscanner] at he
  split at he
  · rename_i hname
    have hname : k₁.ahead = .name := hname
    obtain ⟨word, hword⟩ := k₁.laidAt_lexeme (by rw [hname]; rfl)
    rw [hname] at hword
    rw [token_bind, hscanner] at he
    rcases bind_eq_error.mp he with he | ⟨-, -, -, ⟨⟩⟩
    refine stops_closings hlaid hspelled hword ?_ he
    rw [hscanner]
    exact hword.cursor_eq
  · cases he
    obtain ⟨t, -, hform⟩ := form_someName brackets
    have hstops : Item.Stops _ true k (Item.openings brackets) :=
      .behind hspelled hlaid (.unexpected ["a type name"])
    rw [hscanner]
    exact ⟨t, .of_form hform (hstops.append _)⟩

/-- A type breaks off where brackets are missing behind its name. -/
theorem breaks_typeRef : typeRef.Breaks sets fun t items => items = [t.item] := by
  intro k
  have hspanned : (spanned wrappedName).BreaksFrom sets (fun t items => items = [t.item]) k := by
    intro e he
    obtain ⟨t, hstops⟩ := wrappedName_error (spanned_eq_error.mp he)
    exact ⟨t, _, rfl, hstops⟩
  refine BreaksFrom.lexeme_bind ?_
  split
  · exact hspanned
  · exact hspanned
  · exact .failUnexpected _ (b := default) rfl

end Reader

end GraphQLSyntax
