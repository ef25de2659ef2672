import GraphQLSyntax.Proofs.Grammar.Concatenated
import GraphQLSyntax.Proofs.Grammar.Sliced
import GraphQLSyntax.Proofs.Grammar.WellFormed

/-!
# Types and values on lines of their own

A type or a value that is read alone is read in a document, too, where it has lines of its own.

* `Laid.embed`: the pieces of a text stand in a text that has it on lines of its own.
* `Part.LaidOut.embed`: so does a part.
* `Document.parse_embedded`: types and values as those of variables, arguments and directives.
-/

namespace GraphQLSyntax

variable {text whole back : String} {above : List Char} {k k' m : Cursor} {p : Piece}
  {pieces front : List Piece}

/-! ## Below another text -/

namespace Cursor

theorem ahead_of_end (h : k.rest = []) : k.ahead = .eof :=
  ahead_of_ignorable (by rw [h]; rintro _ ⟨⟩)

theorem behind_below (k : Cursor) (t : Terminal) :
    (k.map (.below above)).behind t = (k.behind t).map (.below above) := by
  rw [behind, skipTrivia_below, consume_below]
  rfl

end Cursor

theorem Terminal.LaidAt.below {t : Terminal} (h : t.LaidAt k) :
    t.LaidAt (k.map (.below above)) := by
  refine ⟨?_, ?_, fun hmark => ?_⟩
  · rw [Cursor.skipTrivia_below, Cursor.behind_below]
    exact h.rest_eq
  · rw [Cursor.behind_below]
    exact h.stands
  · rw [Cursor.skipTrivia_below]
    exact h.close hmark

namespace Laid

/-- Pieces stand below another text as they stand alone. -/
theorem below (h : Laid k pieces k') (above : List Char) : Laid (k.map (.below above))
    (pieces.map (Piece.map (.below above))) (k'.map (.below above)) := by
  induction pieces generalizing k with
  | nil =>
    cases h
    rfl
  | cons p ps ih =>
    obtain ⟨hp, hspan, h⟩ := h
    refine ⟨hp.below, ?_, ?_⟩
    · rw [Piece.map, hspan, Cursor.spanOf, Cursor.spanOf, Cursor.skipTrivia_below,
        Cursor.behind_below]
      rfl
    · have htail := ih h
      rw [← Cursor.behind_below] at htail
      exact htail

/-- Pieces stand wherever the scan goes on to the same lexeme, behind the same characters. -/
theorem of_skipTrivia (h : Laid k pieces k') (hne : pieces ≠ [])
    (hskip : m.skipTrivia = k.skipTrivia)
    (hrest : m.rest.dropWhile Lexical.isIgnorable = k.rest.dropWhile Lexical.isIgnorable) :
    Laid m pieces k' := by
  cases pieces with
  | nil => exact absurd rfl hne
  | cons p ps =>
    obtain ⟨hp, hspan, h⟩ := h
    have hbehind : m.behind p.terminal = k.behind p.terminal := by
      rw [Cursor.behind, Cursor.behind, hskip]
    refine ⟨⟨?_, ?_, fun hmark => ?_⟩, ?_, ?_⟩
    · rw [hskip, hbehind]
      exact hp.rest_eq
    · rw [hbehind]
      exact hp.stands
    · rw [hskip, hrest]
      exact hp.close hmark
    · rw [hspan, Cursor.spanOf, Cursor.spanOf, hskip, hbehind]
    · rwa [hbehind]

/-- The pieces of a text stand in a text that has it on lines of its own, below what stands before
these. -/
theorem embed (h : Laid (.ofText text) pieces k) (hne : pieces ≠ []) (hend : Gap k.rest [])
    (hm : Laid (.ofText whole) front m) (hrest : m.rest = '\n' :: (text ++ "\n" ++ back).toList)
    (hwhole : whole.toList = above ++ (text ++ "\n" ++ back).toList) :
    ∃ m', Laid m (pieces.map (Piece.map (.below above))) m' ∧
      m'.rest = k.rest ++ ['\n'] ++ back.toList := by
  obtain ⟨cs, hcs, -, -⟩ := h.spaced
  have htext : text.toList = cs ++ k.rest := hcs
  have hgap : GapText (k.rest ++ ['\n']) := .of_gap_line hend rfl rfl
  have hkeep := h.keep hcs ((hgap.before []).isCut.append (by simp) back.toList)
  have hlines : { Cursor.ofText text with rest := cs ++ (k.rest ++ ['\n'] ++ back.toList) } =
      .ofText (text ++ "\n" ++ back) := by
    simp [Cursor.ofText, htext]
  rw [hlines] at hkeep
  have hbreak : GapText ([] ++ ['\n']) := .ignorable (by decide) .nil
  refine ⟨_, (hkeep.below above).of_skipTrivia (by simpa using hne) ?_ ?_, rfl⟩
  · exact hm.skipTrivia_of_line hbreak hrest hwhole
  · rw [hrest]
    exact List.dropWhile_cons_of_pos (by decide)

end Laid

/-- A part of a text stands in a text that has it on lines of its own. -/
theorem Part.LaidOut.embed {part : Part} (h : part.LaidOut .reading id (.ofText text) k)
    (hend : Gap k.rest []) (hm : Laid (.ofText whole) front m)
    (hrest : m.rest = '\n' :: (text ++ "\n" ++ back).toList)
    (hwhole : whole.toList = above ++ (text ++ "\n" ++ back).toList) :
    ∃ m', (part.map (.below above)).LaidOut .reading id m m' ∧
      m'.rest = k.rest ++ ['\n'] ++ back.toList := by
  obtain ⟨pieces, hlaid, hspelled⟩ := h
  rw [Piece.map_id, List.map_id] at hspelled
  obtain ⟨m', hm', hend'⟩ := hlaid.embed hspelled.ne_nil hend hm hrest hwhole
  exact ⟨m', ⟨_, hm', by rw [Piece.map_id, List.map_id]; exact hspelled.map⟩, hend'⟩

/-! ## Words and names in a text -/

section

variable {kind : Lexeme} {c : Char} {name : String} {gap rest : List Char}

/-- A character that is a lexeme stands behind a gap. -/
theorem Terminal.laidAt_single_gap (hc : Lexical.single? c = some kind)
    (hrest : k.rest = gap ++ c :: rest) (hgap : GapText gap) :
    (lexeme kind (String.singleton c)).LaidAt k ∧
      (k.behind (lexeme kind (String.singleton c))).rest = rest := by
  have hchars : (lexeme kind (String.singleton c)).chars = [c] := String.toList_singleton c
  refine (stands_single hc rest).laidAt_gap ?_ (hgap.before _) (by rintro ⟨⟩)
  rw [hchars]
  exact hrest

theorem Terminal.laidAt_single (hc : Lexical.single? c = some kind) (hrest : k.rest = c :: rest) :
    (lexeme kind (String.singleton c)).LaidAt k ∧
      (k.behind (lexeme kind (String.singleton c))).rest = rest :=
  laidAt_single_gap hc (List.nil_append (c :: rest) ▸ hrest) .nil

/-- A name stands in front of a text that it does not go on with. -/
theorem Terminal.stands_name (hname : Lexical.IsName name.toList)
    (hrest : ∀ c ∈ rest.head?, Lexical.isNamePart c = false) : (lexeme .name name).Stands rest :=
  ⟨Lexical.classify_name_append hname hrest, rfl, by decide⟩

namespace Item.LaidOut

variable {σ : Convention} {items : List Item} {t : Terminal}

theorem nil_refl (k : Cursor) : Item.LaidOut σ id [] k k := ⟨[], rfl, .nil⟩

theorem cons_terminal (ht : t.LaidAt k) (h : Item.LaidOut σ id items (k.behind t) k') :
    Item.LaidOut σ id (.terminal t :: items) k k' := by
  obtain ⟨pieces, hlaid, hspelled⟩ := h
  exact ⟨⟨t, k.spanOf t⟩ :: pieces, ⟨ht, rfl, hlaid⟩, .terminal t _ hspelled⟩

theorem cons_part {part : Part} (hpart : part.LaidOut σ id k m)
    (h : Item.LaidOut σ id items m k') : Item.LaidOut σ id (.part part :: items) k k' := by
  obtain ⟨first, hfirst, hspelled⟩ := hpart
  obtain ⟨pieces, hlaid, hitems⟩ := h
  refine ⟨first ++ pieces, hfirst.append hlaid, ?_⟩
  rw [List.map_append]
  exact .part hspelled hitems

theorem concat {items' : List Item} (h : Item.LaidOut σ id items k m)
    (h' : Item.LaidOut σ id items' m k') : Item.LaidOut σ id (items ++ items') k k' := by
  obtain ⟨pieces, hlaid, hspelled⟩ := h
  obtain ⟨pieces', hlaid', hspelled'⟩ := h'
  refine ⟨pieces ++ pieces', hlaid.append hlaid', ?_⟩
  rw [List.map_append]
  exact hspelled.append hspelled'

end Item.LaidOut

/-- A name stands in a text as a token. -/
theorem Token.exists_name (name : String) (hname : Lexical.IsName name.toList)
    (hrest : k.rest = name.toList ++ rest)
    (hnext : ∀ c ∈ rest.head?, Lexical.isNamePart c = false) :
    ∃ (t : Token) (k' : Cursor), (Part.token t).LaidOut .reading id k k' ∧ t.IsPlainName ∧
      t.text = name ∧ k'.rest = rest := by
  obtain ⟨hat, hend⟩ := (Terminal.stands_name hname hnext).laidAt_start hrest
  let t : Token := .plain .name name (k.spanOf (.lexeme .name name))
  exact ⟨t, _, ⟨_, .single hat, .token t t.span (covers_single.mpr rfl)⟩, ⟨rfl, rfl⟩, rfl, hend⟩

/-- So does a name behind a sigil, and a gap before it. -/
theorem Token.exists_sigilName {sigil : Char} (name : String) (gap : List Char)
    (hsigil : sigil = '$' ∨ sigil = '@')
    (hname : Lexical.IsName name.toList) (hrest : k.rest = gap ++ sigil :: (name.toList ++ rest))
    (hgap : GapText gap) (hnext : ∀ c ∈ rest.head?, Lexical.isNamePart c = false) :
    ∃ (t : Token) (k' : Cursor), (Part.sigilName sigil t).LaidOut .reading id k k' ∧
      t.IsPlainName ∧ t.text = name ∧ k'.rest = rest := by
  have hstands : (Terminal.sigilName sigil name).Stands rest :=
    ⟨hsigil, (Terminal.stands_name hname hnext).1⟩
  obtain ⟨hat, hend⟩ := hstands.laidAt_gap hrest (hgap.before _) (by rintro ⟨⟩)
  let t : Token := .plain .name name (k.spanOf (.sigilName sigil name))
  exact ⟨t, _, ⟨_, .single hat, .sigilName sigil t t.span (covers_single.mpr rfl)⟩, ⟨rfl, rfl⟩,
    rfl, hend⟩

end

/-! ## Documents around a type or a value -/

section

variable {v : Value} {name : Token} {k₁ k₂ : Cursor} {written : List Item} {rest : List Char}

/-- A field that is given some arguments stands where its name and these do. -/
theorem Selection.laidOut_field {arguments : List Argument}
    (hname : (Part.token name).LaidOut .reading id k k₁) (hplain : name.IsPlainName)
    (harguments : InParentheses (arguments.map Argument.item) written)
    (h : Item.LaidOut .reading id written k₁ k') :
    ∃ span, (Part.node (.selection (.field none name arguments [] [] span))).LaidOut
      .reading id k k' := by
  refine ⟨⟨k.skipTrivia.position, k'.position⟩, .of_rule ⟨by simp, hplain⟩
    (.field none name arguments [] [] _ harguments) ?_ (by rintro _ ⟨⟩; rfl)⟩
  refine .cons_part hname ?_
  show Item.LaidOut .reading id (written ++ []) k₁ k'
  rwa [List.append_nil]

theorem Selection.setDepth_field (aliasName : Option Token) (arguments : List Argument)
    (directives : List Directive) (span : Span) :
    setDepth [field aliasName name arguments directives [] span] ≤ Reader.maxSelectionDepth := by
  rw [setDepth, setDepth, depth]
  decide

/-- A field without arguments stands between braces. -/
theorem Selection.exists_braced (hrest : k.rest = ['{', 'f', '}']) : ∃ s k',
    Item.LaidOut .reading id (Item.braced ([s].map Selection.item)) k k' ∧
      Selection.setDepth [s] ≤ Reader.maxSelectionDepth ∧ k'.ahead = .eof := by
  obtain ⟨hopen, hrest⟩ := Terminal.laidAt_single (c := '{') rfl hrest
  obtain ⟨name, k₁, hname, hplain, -, hk₁⟩ :=
    Token.exists_name "f" (by decide) hrest (by rintro _ ⟨⟩; decide)
  have hparentheses : InParentheses (([] : List Argument).map Argument.item) [] := .absent
  obtain ⟨span, hfield⟩ := laidOut_field hname hplain hparentheses (.nil_refl k₁)
  obtain ⟨hclose, hend⟩ := Terminal.laidAt_single (c := '}') rfl hk₁
  exact ⟨_, _, .braced hopen hfield.item hclose, setDepth_field .., Cursor.ahead_of_end hend⟩

/-- An argument stands in parentheses, with its value on lines of its own. -/
theorem Argument.exists_embedded (h : (Part.node (.value v)).LaidOut .reading id (.ofText text) k₁)
    (hend : Gap k₁.rest []) (hk : Laid (.ofText whole) front k)
    (hrest : k.rest = '(' :: 'a' :: ':' :: '\n' :: (text ++ "\n" ++ (")" ++ back)).toList)
    (hwhole : whole.toList = above ++ (text ++ "\n" ++ (")" ++ back)).toList) :
    ∃ x k', Item.LaidOut .reading id (Item.parenthesised ([x].map Argument.item)) k k' ∧
      x.name.text = "a" ∧ x.value = .literal (v.map (.below above)) ∧ k'.rest = back.toList := by
  obtain ⟨hopen, hrest⟩ := Terminal.laidAt_single (c := '(') rfl hrest
  obtain ⟨name, k₂, hname, hplain, htext, hk₂⟩ :=
    Token.exists_name "a" (by decide) hrest (by rintro _ ⟨⟩; decide)
  obtain ⟨hcolon, hrest⟩ := Terminal.laidAt_single (c := ':') rfl hk₂
  obtain ⟨pieces, hpieces, -⟩ := id hname
  have hfront := (hk.append (.single hopen)).append (hpieces.append (.single hcolon))
  obtain ⟨m, hvalue, hm⟩ := h.embed hend hfront hrest hwhole
  have hgap : GapText (k₁.rest ++ ['\n']) := .of_gap_line hend rfl rfl
  rw [String.toList_append] at hm
  obtain ⟨hclose, hback⟩ := Terminal.laidAt_single_gap (c := ')') rfl hm hgap
  let x : Argument := ⟨name, .literal (v.map (.below above)),
    ⟨(k.behind (.lexeme .parenOpen "(")).skipTrivia.position, m.position⟩⟩
  have hx : (Part.node (.argument x)).LaidOut .reading id (k.behind (.lexeme .parenOpen "(")) m :=
    .of_rule hplain (.argument x)
      (.cons_part hname (.cons_terminal hcolon (.cons_part hvalue (.nil_refl m))))
      (by rintro _ ⟨⟩; rfl)
  exact ⟨x, _, .cons_terminal hopen (.cons_part hx (.cons_terminal hclose (.nil_refl _))), htext,
    rfl, hback⟩

namespace Document

/-- A query is read as what it says before its selections, and a field. -/
theorem parse_query {header : OperationHeader} (hheader : header.WellFormed)
    (hname : header.name = none)
    (hkeyword : (Part.token header.keyword).LaidOut .reading id (.ofText whole) k₁)
    (hwritten : InParentheses (header.variableDefinitions.map VariableDefinition.item) written)
    (hvariables : Item.LaidOut .reading id written k₁ k₂)
    (hdirectives : Item.LaidOut .reading id (header.directives.map Directive.item) k₂ k)
    (hrest : k.rest = ['{', 'f', '}']) : ∃ d selections span, parse whole = .ok d ∧
      d.definitions = [.operation ⟨some header, selections, span⟩] := by
  obtain ⟨s, k', hbraced, hdepth, hend⟩ := Selection.exists_braced hrest
  let o : Operation := ⟨some header, [s], ⟨(Cursor.ofText whole).skipTrivia.position, k'.position⟩⟩
  have hitems : Item.LaidOut .reading id (header.keyword.item ::
      (header.name.toList.map Token.item ++ (written ++
        (header.directives.map Directive.item ++ Item.braced ([s].map Selection.item)))))
      (.ofText whole) k' := by
    rw [hname]
    exact .cons_part hkeyword (hvariables.concat (hdirectives.concat hbraced))
  have ho : (Part.node (.operation o)).LaidOut .reading id (.ofText whole) k' :=
    .of_rule ⟨by rintro _ ⟨⟩; exact hheader, hdepth⟩
      (.operation header [s] _ hwritten (.present [s])) hitems (by rintro _ ⟨⟩; rfl)
  obtain ⟨d, hparse, hd⟩ := parse_of_laidOut_single (x := .operation o)
    Convention.counted_reading ho.item hend
  rw [Definition.map_id_fun, List.map_id] at hd
  exact ⟨d, [s], _, hparse, hd⟩

/-- The keyword of a query stands before what its header goes on with. -/
theorem exists_keyword (hrest : k.rest = 'q' :: 'u' :: 'e' :: 'r' :: 'y' :: rest)
    (hnext : ∀ c ∈ rest.head?, Lexical.isNamePart c = false) : ∃ (keyword : Token) (k' : Cursor),
      (Part.token keyword).LaidOut .reading id k k' ∧ k'.rest = rest ∧
      ∀ vs ds, OperationHeader.WellFormed ⟨.query, keyword, none, vs, ds⟩ := by
  obtain ⟨hat, hend⟩ :=
    (Terminal.stands_name (show Lexical.IsName "query".toList by decide) hnext).laidAt_start hrest
  let keyword : Token := .plain .query "query" (k.spanOf (.lexeme .name "query"))
  exact ⟨keyword, _, ⟨_, .single hat, .token keyword keyword.span (covers_single.mpr rfl)⟩, hend,
    fun _ _ => ⟨rfl, rfl, rfl, by simp⟩⟩

/-- A query with one variable is read, if the type of that variable and its default stand behind
`query($a:`. -/
theorem parse_variable (hwhole : (Cursor.ofText whole).rest =
      'q' :: 'u' :: 'e' :: 'r' :: 'y' :: '(' :: '$' :: 'a' :: ':' :: rest) :
    ∃ k front, Laid (.ofText whole) front k ∧ k.rest = rest ∧
      ∀ (type : TypeRef) (default : Option Value) (k' : Cursor) (gap : List Char),
        Item.LaidOut .reading id
          (type.item :: default.toList.flatMap fun v => [.word .equals "=", v.item]) k k' →
        GapText gap → k'.rest = gap ++ [')', '{', 'f', '}'] →
        ∃ d o x, parse whole = .ok d ∧ d.definitions = [.operation o] ∧
          o.variableDefinitions = [x] ∧ x.name.text = "a" ∧ x.type = type ∧
          x.default = default := by
  obtain ⟨keyword, k₀, hkeyword, hrest, hheader⟩ := exists_keyword hwhole (by rintro _ ⟨⟩; decide)
  obtain ⟨hopen, hrest⟩ := Terminal.laidAt_single (c := '(') rfl hrest
  obtain ⟨name, k₁, hname, hplain, htext, hk₁⟩ :=
    Token.exists_sigilName "a" [] (.inl rfl) (by decide) hrest .nil
      (by rintro _ ⟨⟩; decide)
  obtain ⟨hcolon, hrest⟩ := Terminal.laidAt_single (c := ':') rfl hk₁
  have hfront : Item.LaidOut .reading id
      [keyword.item, .word .parenOpen "(", .part (.sigilName '$' name), .word .colon ":"]
      (.ofText whole) _ :=
    .cons_part hkeyword (.cons_terminal hopen (.cons_part hname
      (.cons_terminal hcolon (.nil_refl _))))
  obtain ⟨front, hfront, -⟩ := hfront
  refine ⟨_, front, hfront, hrest, fun type default k' gap htype hgap hk' => ?_⟩
  let x : VariableDefinition := ⟨name, type, default, [],
    ⟨(k₀.behind (.lexeme .parenOpen "(")).skipTrivia.position, k'.position⟩⟩
  have hx : (Part.node (.variableDefinition x)).LaidOut .reading id
      (k₀.behind (.lexeme .parenOpen "(")) k' := by
    refine .of_rule hplain (.variableDefinition x) (.cons_part hname (.cons_terminal hcolon ?_))
      (by rintro _ ⟨⟩; rfl)
    show Item.LaidOut .reading id (type.item :: (default.toList.flatMap _ ++ [])) _ k'
    rwa [List.append_nil]
  obtain ⟨hclose, hend⟩ := Terminal.laidAt_single_gap (c := ')') rfl hk' hgap
  have hwritten : Item.LaidOut .reading id (Item.parenthesised ([x].map VariableDefinition.item))
      k₀ _ := .cons_terminal hopen (.cons_part hx (.cons_terminal hclose (.nil_refl _)))
  obtain ⟨d, selections, span, hparse, hd⟩ := parse_query (hheader [x] []) rfl hkeyword
    (.present _) hwritten (.nil_refl _) hend
  exact ⟨d, _, x, hparse, hd, rfl, htext, rfl, rfl⟩

end Document

end

/-! ## Types and values -/

section

variable {t : TypeRef} {v : Value}

/-- What stands above a text that has lines of its own. -/
theorem toList_lines {behind : String} (front text back : String) (h : behind = "\n" ++ back) :
    (front ++ text ++ behind).toList = front.toList ++ (text ++ "\n" ++ back).toList := by
  rw [h]
  simp only [String.toList_append, List.append_assoc]

namespace Document

/-- A type is read as that of a variable. -/
theorem parse_of_type (h : TypeRef.parse text = .ok t) : ∃ d o x,
    parse ("query($a:\n" ++ text ++ "\n)\x7bf\x7d") = .ok d ∧ d.definitions = [.operation o] ∧
      o.variableDefinitions = [x] ∧ x.name.text = "a" ∧ x.default = none ∧
      x.type = t.map (.below "query($a:\n".toList) := by
  obtain ⟨k, hlaid, hend⟩ := TypeRef.laidOut_of_parse h
  have hgap := Cursor.gap_of_ahead hend
  have hwhole := toList_lines "query($a:\n" text ")\x7bf\x7d" rfl
  have hfront : "query($a:\n".toList =
      ['q', 'u', 'e', 'r', 'y', '(', '$', 'a', ':', '\n'] := by decide
  have hrest := hwhole
  rw [hfront] at hrest
  obtain ⟨m, front, hm, hrest, hparse⟩ := parse_variable hrest
  obtain ⟨k', htype, hk'⟩ := hlaid.embed hgap hm hrest hwhole
  obtain ⟨d, o, x, hd, ho, hx, hname, htype, hdefault⟩ := hparse (t.map _) none k' _
    (.cons_part htype (.nil_refl k')) (.of_gap_line hgap rfl rfl) hk'
  exact ⟨d, o, x, hd, ho, hx, hname, hdefault, htype⟩

/-- A value is read as that of an argument of a field. -/
theorem parse_of_argument (h : Value.parse text = .ok v) : ∃ d o name x span,
    parse ("\x7bf(a:\n" ++ text ++ "\n)\x7d") = .ok d ∧ d.definitions = [.operation o] ∧
      o.header = none ∧ o.selections = [.field none name [x] [] [] span] ∧ x.name.text = "a" ∧
      x.value = .literal (v.map (.below "\x7bf(a:\n".toList)) := by
  obtain ⟨k, hlaid, hend⟩ := Value.laidOut_of_parse h
  have hgap := Cursor.gap_of_ahead hend
  have hwhole := toList_lines "\x7bf(a:\n" text (")" ++ "\x7d") rfl
  have hfront : "\x7bf(a:\n".toList = ['{', 'f', '(', 'a', ':', '\n'] := by decide
  have hrest := hwhole
  rw [hfront] at hrest
  obtain ⟨hopen, hrest⟩ := Terminal.laidAt_single (c := '{') (k := .ofText _) rfl hrest
  obtain ⟨name, k₁, hname, hplain, -, hk₁⟩ :=
    Token.exists_name "f" (by decide) hrest (by rintro _ ⟨⟩; decide)
  obtain ⟨front, hfront, -⟩ := id hname
  obtain ⟨x, k₂, harguments, hx, hvalue, hk₂⟩ := Argument.exists_embedded hlaid hgap
    ((Laid.single hopen).append hfront) hk₁ hwhole
  obtain ⟨span, hfield⟩ := Selection.laidOut_field hname hplain (.present _) harguments
  obtain ⟨hclose, hend⟩ := Terminal.laidAt_single (c := '}') rfl hk₂
  have hselections : Item.LaidOut .reading id (Item.braced
      ([Selection.field none name [x] [] [] span].map Selection.item)) (.ofText _) _ :=
    .braced hopen hfield.item hclose
  have hquery := Part.LaidOut.shorthand hselections (Selection.setDepth_field ..)
  obtain ⟨d, hd, hdefinitions⟩ := parse_of_laidOut_single (x := .operation _)
    Convention.counted_reading hquery.item (Cursor.ahead_of_end hend)
  rw [Definition.map_id_fun, List.map_id] at hdefinitions
  exact ⟨d, _, name, x, span, hd, hdefinitions, rfl, rfl, hx, hvalue⟩

/-- A value is read as that of an argument of a directive. -/
theorem parse_of_directive (h : Value.parse text = .ok v) : ∃ d o directive x,
    parse ("query @d(a:\n" ++ text ++ "\n)\x7bf\x7d") = .ok d ∧ d.definitions = [.operation o] ∧
      o.directives = [directive] ∧ directive.name.text = "d" ∧ directive.arguments = [x] ∧
      x.name.text = "a" ∧ x.value = .literal (v.map (.below "query @d(a:\n".toList)) := by
  obtain ⟨k, hlaid, hend⟩ := Value.laidOut_of_parse h
  have hgap := Cursor.gap_of_ahead hend
  have hwhole := toList_lines "query @d(a:\n" text (")" ++ "\x7bf\x7d") rfl
  have hfront : "query @d(a:\n".toList =
      ['q', 'u', 'e', 'r', 'y', ' ', '@', 'd', '(', 'a', ':', '\n'] := by decide
  have hrest := hwhole
  rw [hfront] at hrest
  obtain ⟨keyword, k₀, hkeyword, hrest, hheader⟩ :=
    exists_keyword (k := .ofText _) hrest (by rintro _ ⟨⟩; decide)
  obtain ⟨name, k₁, hname, hplain, htext, hk₁⟩ := Token.exists_sigilName "d" [' ']
    (.inr rfl) (by decide) hrest (.ignorable (by decide) .nil) (by rintro _ ⟨⟩; decide)
  obtain ⟨first, hfirst, -⟩ := id hkeyword
  obtain ⟨second, hsecond, -⟩ := id hname
  obtain ⟨x, k₂, harguments, hx, hvalue, hk₂⟩ := Argument.exists_embedded hlaid hgap
    (hfirst.append hsecond) hk₁ hwhole
  let directive : Directive := ⟨name, [x], ⟨k₀.skipTrivia.position, k₂.position⟩⟩
  have hdirective : (Part.node (.directive directive)).LaidOut .reading id k₀ k₂ :=
    .of_rule hplain (.directive directive (.present _)) (.cons_part hname harguments)
      (by rintro _ ⟨⟩; rfl)
  obtain ⟨d, selections, span, hparse, hd⟩ := parse_query (hheader [] [directive]) rfl hkeyword
    .absent (.nil_refl k₀) (.cons_part hdirective (.nil_refl k₂)) hk₂
  exact ⟨d, _, directive, x, hparse, hd, rfl, htext, rfl, hx, hvalue⟩

/-- A value is read as the default of a variable. -/
theorem parse_of_default (h : Value.parse text = .ok v) : ∃ d o x,
    parse ("query($a:T=\n" ++ text ++ "\n)\x7bf\x7d") = .ok d ∧ d.definitions = [.operation o] ∧
      o.variableDefinitions = [x] ∧ x.name.text = "a" ∧ x.type.name.text = "T" ∧
      x.type.wrapping = .named false ∧
      x.default = some (v.map (.below "query($a:T=\n".toList)) := by
  obtain ⟨k, hlaid, hend⟩ := Value.laidOut_of_parse h
  have hgap := Cursor.gap_of_ahead hend
  have hwhole := toList_lines "query($a:T=\n" text ")\x7bf\x7d" rfl
  have hfront : "query($a:T=\n".toList =
      ['q', 'u', 'e', 'r', 'y', '(', '$', 'a', ':', 'T', '=', '\n'] := by decide
  have hrest := hwhole
  rw [hfront] at hrest
  obtain ⟨m, front, hm, hrest, hparse⟩ := parse_variable hrest
  obtain ⟨name, k₁, hname, hplain, htext, hk₁⟩ :=
    Token.exists_name "T" (by decide) hrest (by rintro _ ⟨⟩; decide)
  obtain ⟨hequals, hrest⟩ := Terminal.laidAt_single (c := '=') rfl hk₁
  obtain ⟨pieces, hpieces, -⟩ := id hname
  obtain ⟨k', hvalue, hk'⟩ := hlaid.embed hgap
    (hm.append (hpieces.append (.single hequals))) hrest hwhole
  have hmarks : Marks false [] := ⟨by simp, by simp⟩
  have hlists : 0 < Reader.maxLists := by decide
  have hcounts : Reader.countedLists 0 = 0 := by decide
  let type : TypeRef := ⟨name, .named false, ⟨m.skipTrivia.position, k₁.position⟩⟩
  have htype : (Part.node (.typeRef type)).LaidOut .reading id m k₁ :=
    .of_rule ⟨hplain, hlists⟩ (.typeRef type hcounts (.named hmarks))
      (.cons_part hname (.nil_refl k₁)) (by rintro _ ⟨⟩; rfl)
  obtain ⟨d, o, x, hd, ho, hx, hname, htype, hdefault⟩ := hparse type (some (v.map _)) k' _
    (.cons_part htype (.cons_terminal hequals (.cons_part hvalue (.nil_refl k'))))
    (.of_gap_line hgap rfl rfl) hk'
  exact ⟨d, o, x, hd, ho, hx, hname, by rw [htype]; exact htext, by rw [htype], hdefault⟩

end Document

end

/-- **Types and values are read in a document as they are read alone.** On lines of its own, an
accepted type is the type of a variable, and an accepted value the value of an argument of a field
or of a directive, or the default of a variable. The tree is the one that is read alone, with all
its tokens and their types. Its positions move down below what stands above: lines and byte offsets
are counted on, columns stay. -/
theorem Document.parse_embedded :
    (∀ text t, TypeRef.parse text = .ok t → ∃ d o x,
      parse ("query($a:\n" ++ text ++ "\n)\x7bf\x7d") = .ok d ∧ d.definitions = [.operation o] ∧
        o.variableDefinitions = [x] ∧ x.name.text = "a" ∧ x.default = none ∧
        x.type = t.map (.below "query($a:\n".toList)) ∧
    ∀ text v, Value.parse text = .ok v →
      (∃ d o name x span, parse ("\x7bf(a:\n" ++ text ++ "\n)\x7d") = .ok d ∧
        d.definitions = [.operation o] ∧ o.header = none ∧
        o.selections = [.field none name [x] [] [] span] ∧ x.name.text = "a" ∧
        x.value = .literal (v.map (.below "\x7bf(a:\n".toList))) ∧
      (∃ d o directive x, parse ("query @d(a:\n" ++ text ++ "\n)\x7bf\x7d") = .ok d ∧
        d.definitions = [.operation o] ∧ o.directives = [directive] ∧ directive.name.text = "d" ∧
        directive.arguments = [x] ∧ x.name.text = "a" ∧
        x.value = .literal (v.map (.below "query @d(a:\n".toList))) ∧
      ∃ d o x, parse ("query($a:T=\n" ++ text ++ "\n)\x7bf\x7d") = .ok d ∧
        d.definitions = [.operation o] ∧ o.variableDefinitions = [x] ∧ x.name.text = "a" ∧
        x.type.name.text = "T" ∧ x.type.wrapping = .named false ∧
        x.default = some (v.map (.below "query($a:T=\n".toList)) := by
  exact ⟨fun _ _ h => parse_of_type h, fun _ _ h =>
    ⟨parse_of_argument h, parse_of_directive h, parse_of_default h⟩⟩

/-- A type with a comment behind it, and a list with a byte order mark before it. -/
theorem Document.parse_embedded_gaps :
    (∃ t d o x, TypeRef.parse "[T!]# c" = .ok t ∧
      parse ("query($a:\n" ++ "[T!]# c" ++ "\n)\x7bf\x7d") = .ok d ∧
      d.definitions = [.operation o] ∧ o.variableDefinitions = [x] ∧ x.name.text = "a" ∧
      x.default = none ∧ x.type = t.map (.below "query($a:\n".toList)) ∧
    ∃ v d o name x span, Value.parse "\ufeff[1 \x7b\x7d]" = .ok v ∧
      parse ("\x7bf(a:\n" ++ "\ufeff[1 \x7b\x7d]" ++ "\n)\x7d") = .ok d ∧
      d.definitions = [.operation o] ∧ o.header = none ∧
      o.selections = [.field none name [x] [] [] span] ∧ x.name.text = "a" ∧
      x.value = .literal (v.map (.below "\x7bf(a:\n".toList)) := by
  have htype : (TypeRef.parse "[T!]# c").isOk := by decide +kernel
  have hvalue : (Value.parse "\ufeff[1 \x7b\x7d]").isOk := by decide +kernel
  constructor
  · cases hparse : TypeRef.parse "[T!]# c" with
    | error e =>
      rw [hparse] at htype
      cases htype
    | ok t =>
      obtain ⟨d, o, x, h⟩ := parse_embedded.1 _ t hparse
      exact ⟨t, d, o, x, rfl, h⟩
  · cases hparse : Value.parse "\ufeff[1 \x7b\x7d]" with
    | error e =>
      rw [hparse] at hvalue
      cases hvalue
    | ok v =>
      obtain ⟨d, o, name, x, span, h⟩ := (parse_embedded.2 _ v hparse).1
      exact ⟨v, d, o, name, x, span, rfl, h⟩

end GraphQLSyntax
