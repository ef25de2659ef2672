import GraphQLSyntax.Proofs.Grammar.Padded
import GraphQLSyntax.Proofs.Grammar.Sound.Value
import GraphQLSyntax.Proofs.Grammar.TypeText
import GraphQLSyntax.Proofs.Lexical.Object

/-!
# Comments inside types and object literals

* `TypeRef.SpelledBy.padded`: a gap before the first bracket of a type, or before its name.
* `TypeRef.SpelledBy.refuses_comment`: a comment before any other bracket or mark is refused.
-/

namespace GraphQLSyntax

/-- A comment, with the line break that ends it. -/
inductive CommentLine : List Char → Prop where
  | intro (body : List Char) (c : Char) (hbody : ∀ d ∈ body, Text.isLineBreak d = false)
    (hc : Text.isLineBreak c) : CommentLine ('#' :: (body ++ [c]))

theorem CommentLine.gapText {cs : List Char} (h : CommentLine cs) : GapText cs := by
  cases h with
  | intro body c hbody hc => exact .comment hbody hc .nil

/-! ## Types -/

namespace Terminal

variable {t t' : Terminal} {k : Cursor}

/-- A terminal of a type: a lexeme, or a bracket or a mark that is looked for. -/
inductive OfType : Terminal → Prop where
  | lexeme (kind : Lexeme) (text : String) : OfType (.lexeme kind text)
  | mark (c : Char) : OfType (.mark c)

theorem LaidAt.toList_eq {c : Char} {kind : Lexeme} {text : String} (h : (mark c).LaidAt k)
    (h' : (lexeme kind text).LaidAt k) : text.toList = [c] := by
  obtain ⟨hclassify, hcontrol, -⟩ := h'.stands
  rw [← chars, ← h'.rest_eq, h.rest_eq] at hclassify
  rcases h.stands with rfl | rfl | rfl
  · exact (congrArg Prod.snd hclassify).symm
  · exact (congrArg Prod.snd hclassify).symm
  · obtain rfl : .unknown = kind := congrArg Prod.fst hclassify
    cases hcontrol

/-- Only one text of a terminal of a type stands at a cursor. -/
theorem LaidAt.chars_eq (h : t.LaidAt k) (h' : t'.LaidAt k) (ht : t.OfType) (ht' : t'.OfType) :
    t.chars = t'.chars := by
  cases ht with
  | lexeme kind text =>
    cases ht' with
    | lexeme kind' text' =>
      have hclassify := h.stands.1
      rw [← chars.eq_1 kind text, ← h.rest_eq, h'.rest_eq, chars, h'.stands.1] at hclassify
      exact (congrArg Prod.snd hclassify).symm
    | mark c => exact h'.toList_eq h
  | mark c =>
    cases ht' with
    | lexeme kind text => exact (h.toList_eq h').symm
    | mark c' =>
      have hrest := h.rest_eq
      rw [h'.rest_eq] at hrest
      exact congrArg (fun c => [c]) (List.cons.inj hrest).1.symm

end Terminal

/-- Pieces of types that stand in a text up to its end go on from where others end. -/
theorem Laid.exists_append {k k' m : Cursor} {ps pieces : List Piece} (h : Laid k ps m)
    (h' : Laid k pieces k') (hps : ∀ p ∈ ps, p.terminal.OfType)
    (hpieces : ∀ p ∈ pieces, p.terminal.OfType) (hend : k'.ahead = .eof) :
    ∃ front qs, pieces = front ++ qs ∧ front.length = ps.length ∧ Laid m qs k' := by
  induction ps generalizing k pieces with
  | nil =>
    cases h
    exact ⟨[], pieces, rfl, rfl, h'⟩
  | cons p ps ih =>
    obtain ⟨hp, -, h⟩ := h
    cases pieces with
    | nil =>
      cases h'
      have hrest := Lexical.classify_eof_iff.mp hend
      rw [hp.rest_eq] at hrest
      exact absurd (List.append_eq_nil_iff.mp hrest).1 hp.stands.chars_ne_nil
    | cons q pieces =>
      obtain ⟨hq, -, h'⟩ := h'
      have hchars := hp.chars_eq hq (hps p (by simp)) (hpieces q (by simp))
      have hbehind : k.behind p.terminal = k.behind q.terminal := by
        rw [Cursor.behind, hchars, Cursor.behind]
      obtain ⟨front, qs, rfl, hlength, hqs⟩ := ih (hbehind ▸ h) h'
        (fun r hr => hps r (by simp [hr])) fun r hr => hpieces r (by simp [hr])
      exact ⟨q :: front, qs, rfl, by simp [hlength], hqs⟩

namespace TypeRef.SpelledBy

variable {text name : String} {wrapping : Wrapping} {brackets : Nat} {marks : List Char}
  {ps qs pieces : List Piece} {k : Cursor} {cs ds gap : List Char} {q : Piece}

/-- A gap may be put before the first bracket of a type, and before its name. -/
theorem padded (h : SpelledBy text name wrapping brackets marks pieces k)
    (htext : text.toList = cs ++ ds) (hq : q ∈ pieces)
    (hstart : q.span.start.byteOffset = Text.byteLength cs) (hmark : q.terminal.isMark = false)
    (hgap : GapText gap) : ∃ t, TypeRef.parse (String.ofList (cs ++ (gap ++ ds))) = .ok t ∧
      t.name.text = name ∧ t.wrapping = wrapping := by
  obtain ⟨ps, qs, rfl⟩ := List.append_of_mem hq
  have hm : (Cursor.ofText (String.ofList (cs ++ (gap ++ ds)))).rest = cs ++ (gap ++ ds) :=
    String.toList_ofList
  have hbehind := Cursor.gap_of_ahead h.ahead_eq
  obtain ⟨pieces', k', hlaid, hpieces, hend⟩ := h.laid.padded hbehind.isCut htext
    (by rw [hstart]; exact (Nat.zero_add _).symm) hgap (by rw [hmark]; rintro ⟨⟩) hm
  have hterminals := congrArg (List.map (·.terminal)) hpieces
  rw [List.map_map, List.map_map] at hterminals
  have hspelled : SpelledBy (String.ofList (cs ++ (gap ++ ds))) name wrapping brackets marks
      pieces' k' := ⟨hlaid, hterminals.trans h.terminals_eq, h.counted, h.bounded, h.closed,
    Cursor.ahead_of_gap (hend ▸ hbehind)⟩
  obtain ⟨t, hparse, hname, hwrapping, -⟩ := hspelled.parse
  exact ⟨t, hparse, hname, hwrapping⟩

/-- A type starts with a lexeme. Behind it, all but the name is looked for. -/
theorem pieces_eq (h : SpelledBy text name wrapping brackets marks pieces k) : ∃ p rest,
    pieces = p :: rest ∧ (∃ kind text, p.terminal = .lexeme kind text) ∧
      ∀ q ∈ rest, (∃ c, q.terminal = .mark c) ∨ q.terminal = .lexeme .name name := by
  have hsplit : ∃ kind text rest, Terminal.openings brackets ++ .lexeme .name name ::
      marks.map Terminal.mark = .lexeme kind text :: rest ∧
        ∀ t ∈ rest, (∃ c, t = .mark c) ∨ t = .lexeme .name name := by
    cases brackets with
    | zero =>
      refine ⟨_, _, _, rfl, fun t ht => .inl ?_⟩
      obtain ⟨c, -, rfl⟩ := List.mem_map.mp ht
      exact ⟨c, rfl⟩
    | succ brackets =>
      refine ⟨_, _, _, rfl, fun t ht => ?_⟩
      rcases List.mem_append.mp ht with ht | ht
      · exact .inl ⟨'[', List.eq_of_mem_replicate ht⟩
      · rcases List.mem_cons.mp ht with rfl | ht
        · exact .inr rfl
        · obtain ⟨c, -, rfl⟩ := List.mem_map.mp ht
          exact .inl ⟨c, rfl⟩
  obtain ⟨kind, text, ts, hts, hrest⟩ := hsplit
  obtain ⟨p, rest, rfl, hp, rfl⟩ := List.map_eq_cons_iff.mp (h.terminals_eq.trans hts)
  exact ⟨p, rest, rfl, ⟨kind, text, hp⟩, fun q hq => hrest _ (List.mem_map_of_mem hq)⟩

theorem ofType (h : SpelledBy text name wrapping brackets marks pieces k) :
    ∀ p ∈ pieces, p.terminal.OfType := by
  obtain ⟨p, rest, rfl, ⟨kind, text, hp⟩, hrest⟩ := h.pieces_eq
  refine List.forall_mem_cons.mpr ⟨hp ▸ .lexeme kind text, fun q hq => ?_⟩
  rcases hrest q hq with ⟨c, hc⟩ | hname
  · exact hc ▸ .mark c
  · exact hname ▸ .lexeme _ _

/-- Behind other pieces, an accepted text has no mark in front of which there is a comment. -/
theorem not_comment {m : Cursor} {front : List Piece} {body : List Char}
    (h : SpelledBy text name wrapping brackets marks (front ++ pieces) k) (hfront : front ≠ [])
    (hlaid : Laid m pieces k) {c : Char} (hc : IsMark c)
    (hahead : m.ahead = (Terminal.mark c).ahead) (hgap : ∀ d ∈ gap, Lexical.isIgnorable d)
    (hm : m.rest = gap ++ '#' :: body) : False := by
  cases pieces with
  | nil =>
    cases hlaid
    rw [h.ahead_eq] at hahead
    rcases hc with rfl | rfl | rfl <;> cases hahead
  | cons q qs =>
    obtain ⟨hq, -, -⟩ := hlaid
    obtain ⟨p, rest, heq, -, hrest⟩ := h.pieces_eq
    obtain ⟨first, front, rfl⟩ := List.exists_cons_of_ne_nil hfront
    obtain ⟨-, rfl⟩ := List.cons.inj heq
    rcases hrest q (by simp) with ⟨d, hd⟩ | hname
    · -- Only ignorable characters stand before a mark, so the number sign would start a lexeme.
      have hclose := hq.close (by rw [hd]; rfl)
      have hstarts := hq.stands.startsLexeme
      rw [← hq.rest_eq, hclose, hm, List.dropWhile_append_of_pos hgap] at hstarts
      exact (hstarts '#' rfl).2 rfl
    · rw [hq.ahead, hname] at hahead
      rcases hc with rfl | rfl | rfl <;> cases hahead

/-- A bracket or a mark that is looked for is not the first piece of a type. -/
theorem ne_nil_of_mark (h : SpelledBy text name wrapping brackets marks (ps ++ q :: qs) k)
    (hq : q.terminal.isMark) : ps ≠ [] := by
  rintro rfl
  obtain ⟨p, rest, heq, ⟨kind, text, hp⟩, -⟩ := h.pieces_eq
  obtain ⟨rfl, -⟩ := List.cons.inj heq
  rw [hp] at hq
  cases hq

/-- The first pieces of a type, wherever they stand. -/
theorem ofType_of_terminals (h : SpelledBy text name wrapping brackets marks (ps ++ qs) k)
    (hterminals : pieces.map (·.terminal) = ps.map (·.terminal)) :
    ∀ p ∈ pieces, p.terminal.OfType := by
  intro p hp
  have hmem : p.terminal ∈ ps.map (·.terminal) := hterminals ▸ List.mem_map_of_mem hp
  obtain ⟨r, hr, heq⟩ := List.mem_map.mp hmem
  exact heq ▸ h.ofType r (List.mem_append_left _ hr)

/-- A comment before any but the first bracket of a type, or before its mark, is refused. -/
theorem refuses_comment (h : SpelledBy text name wrapping brackets marks pieces k)
    (htext : text.toList = cs ++ ds) (hq : q ∈ pieces)
    (hstart : q.span.start.byteOffset = Text.byteLength cs) (hmark : q.terminal.isMark)
    (hcomment : CommentLine gap) (t : TypeRef) :
    TypeRef.parse (String.ofList (cs ++ (gap ++ ds))) ≠ .ok t := by
  intro hparse
  obtain ⟨ps, qs, rfl⟩ := List.append_of_mem hq
  obtain ⟨c, hc⟩ : ∃ c, q.terminal = .mark c := by
    cases hterminal : q.terminal <;> rw [hterminal] at hmark <;> cases hmark
    exact ⟨_, rfl⟩
  have hm : (Cursor.ofText (String.ofList (cs ++ (gap ++ ds)))).rest = cs ++ (gap ++ ds) :=
    String.toList_ofList
  have hne : gap ≠ [] := by
    cases hcomment
    exact List.cons_ne_nil _ _
  obtain ⟨k₁, gap₀, ps', m, hqs, rfl, hgap₀, hignored, hps', hpieces, hm⟩ :=
    h.laid.until_gap htext (by rw [hstart]; exact (Nat.zero_add _).symm) hcomment.gapText hne hm
  have hterminals := congrArg (List.map (·.terminal)) hpieces
  rw [List.map_map, List.map_map] at hterminals
  -- What is accepted starts with the same pieces, up to the gap that the comment stands in.
  obtain ⟨brackets', marks', pieces', k', h'⟩ := spelled_of_parse hparse
  obtain ⟨front, qs', rfl, hlength, hqs'⟩ :=
    hps'.exists_append h'.laid (h.ofType_of_terminals hterminals) h'.ofType h'.ahead_eq
  have hfront : front ≠ [] := by
    have hps := congrArg List.length hterminals
    rw [List.length_map, List.length_map, ← hlength] at hps
    rintro rfl
    exact h.ne_nil_of_mark hmark (List.eq_nil_of_length_eq_zero hps.symm)
  have hstands := hqs.1.stands
  have hstarts : StartsLexeme k₁.skipTrivia.rest := by
    rw [hqs.1.rest_eq]
    exact hstands.startsLexeme
  have hahead : m.ahead = (Terminal.mark c).ahead := by
    rw [← hc, ← hqs.1.ahead]
    exact Cursor.ahead_of_gap_append (by rw [hm, List.append_assoc])
      ((hgap₀.append hcomment.gapText).before _) hstarts
  rw [hc] at hstands
  cases hcomment with
  | intro => exact h'.not_comment hfront hqs' hstands hahead (hignored hmark) hm

end TypeRef.SpelledBy

/-! ## Object literals -/

namespace Value

variable {text literal : String} {span : Span} {lead body behind front back comment : List Char}
  {depth depth' : Nat}

/-- A text that is parsed as an object literal is that literal with gaps around it. -/
theorem object_of_parse (h : parse text = .ok (.scalar (.literal .object literal span))) :
    ∃ lead body behind, text.toList = lead ++ ('{' :: body ++ behind) ∧
      literal.toList = '{' :: body ∧ GapText lead ∧ Lexical.braced 0 body = (.object, body) ∧
      Gap behind [] := by
  obtain ⟨r, hr⟩ := parse_eq_ok.mp h
  obtain ⟨-, hread, hend⟩ := Reader.whole_eq_ok.mp hr
  obtain ⟨k, _, pieces, rfl, hlaid, hspelled, rfl⟩ := Reader.reads_value _ _ r hread
  obtain ⟨items, hnode⟩ := Part.Spelled.node_iff.mp hspelled.of_single
  obtain ⟨-, hrule, hitems, -⟩ := hnode
  cases hrule with
  | scalar =>
    cases hitems.of_single with
    | token =>
      obtain ⟨hat, -, rfl⟩ := hlaid
      obtain ⟨lead, hrest, hlead, -, -⟩ := hat.gap
      obtain ⟨body, htext, hbraced⟩ := hat.stands
      have hlead := GapText.of_gap hlead hat.stands.startsLexeme
        (List.append_ne_nil_of_left_ne_nil hat.stands.chars_ne_nil _)
      have hchars : (Terminal.object literal).chars = '{' :: body := htext
      have hcut := Lexical.local_braced 0 _ _ _ [] hbraced (.cut rfl (by decide) (by simp))
      rw [List.append_nil] at hcut
      exact ⟨lead, body, _, hchars ▸ hrest, htext, hlead, hcut, Cursor.gap_of_ahead hend⟩

/-- An object literal with gaps around it is parsed as that literal. -/
theorem parse_object (hlead : GapText lead) (h : Lexical.braced 0 body = (.object, body))
    (hbehind : Gap behind []) : ∃ span,
      parse (String.ofList (lead ++ ('{' :: body ++ behind))) =
        .ok (.scalar (.literal .object (String.ofList ('{' :: body)) span)) := by
  have hrest : (Cursor.ofText (String.ofList (lead ++ ('{' :: body ++ behind)))).rest =
      lead ++ ('{' :: body ++ behind) := String.toList_ofList
  generalize String.ofList (lead ++ ('{' :: body ++ behind)) = text at hrest
  generalize hliteral : String.ofList ('{' :: body) = literal
  have htext : literal.toList = '{' :: body := by rw [← hliteral, String.toList_ofList]
  have hstands : (Terminal.object literal).Stands behind :=
    ⟨body, htext, by rw [Lexical.braced_append (congrArg Prod.fst h), h]⟩
  have hchars : '{' :: body = (Terminal.object literal).chars := htext.symm
  rw [hchars] at hrest
  obtain ⟨hat, hend⟩ := hstands.laidAt_gap hrest (hlead.before _) (by rintro ⟨⟩)
  let token : Token := .literal .object literal ((Cursor.ofText text).spanOf (.object literal))
  have hpart : (Part.node (.value (.scalar token))).LaidOut .reading id (.ofText text)
      ((Cursor.ofText text).behind (.object literal)) := by
    refine ⟨_, .single hat, ?_⟩
    rw [Piece.map_id, List.map_id]
    refine .node (n := .value (.scalar token)) ?_ (.scalar token) (Reader.spelled_token rfl) ?_
    · exact Token.isLiteral_literal _ (by simp) (by rintro ⟨⟩)
    · rintro _ ⟨⟩
      exact covers_single.mpr rfl
  have hbehind := Cursor.ahead_of_gap (hend ▸ hbehind)
  have hgives := Reader.gives_value hpart (by rw [hbehind]; decide)
  obtain ⟨v, r, hread, hv⟩ := hgives.whole hpart.ahead_known.2 hbehind
  obtain rfl := (Value.map_id v).symm.trans hv
  exact ⟨_, parse_eq_ok.mpr ⟨r, hread⟩⟩

theorem parse_object_sample : ∃ span, parse "\x7ba:1\x7d" =
    .ok (.scalar (.literal .object "\x7ba:1\x7d" span)) := by
  have hbraced : Lexical.braced 0 ['a', ':', '1', '}'] = (.object, ['a', ':', '1', '}']) := by
    decide +kernel
  obtain ⟨span, hparse⟩ := parse_object .nil hbraced (.nil [])
  have htext : String.ofList ['{', 'a', ':', '1', '}'] = "\x7ba:1\x7d" := by decide
  rw [List.nil_append, List.append_nil, htext] at hparse
  exact ⟨span, hparse⟩

/-- A comment inside an object literal, which cuts no string literal and opens none, leaves it an
object literal where it leaves as many braces open as there are. -/
theorem braced_comment (h : Lexical.braced 0 (front ++ back) = (.object, front ++ back))
    (hfront : Lexical.Over back 0 front depth) (hcomment : CommentLine comment)
    (hover : Lexical.Over back depth comment depth') :
    Lexical.braced 0 (front ++ (comment ++ back)) = (.object, front ++ (comment ++ back)) ↔
      depth' = depth := by
  rw [hfront.braced_eq] at h
  obtain ⟨rest, hrest, hback⟩ := Lexical.after_eq_iff.mp h
  obtain rfl := List.append_cancel_left hrest
  have hbefore : Lexical.Over (comment ++ back) 0 front depth := by
    cases hcomment
    exact hfront.before (by simp [Lexical.apart])
  rw [hbefore.braced_eq, hover.braced_eq]
  constructor
  · intro hnew
    obtain ⟨rest, hrest, hnew⟩ := Lexical.after_eq_iff.mp hnew
    obtain rfl := List.append_cancel_left hrest
    obtain ⟨rest, hrest, hnew⟩ := Lexical.after_eq_iff.mp hnew
    obtain rfl := List.append_cancel_left hrest
    exact Lexical.braced_depth_unique hnew hback
  · rintro rfl
    rw [hback]
    rfl

end Value

/-- **Comments inside types and object literals.** In front of the first bracket of a type and in
front of its name, comments and byte order marks are insignificant. In front of any other bracket or
mark, a comment is refused.

Comments are insignificant in front of an object literal, too. Inside it, a comment is part of the
literal: where it neither cuts a string literal nor opens one, the literal goes on to its closing
brace exactly if the comment leaves as many braces open as there are. -/
theorem comments_inside :
    (∀ (text : String) (t : TypeRef), TypeRef.parse text = .ok t → ∃ brackets marks pieces k,
      TypeRef.SpelledBy text t.name.text t.wrapping brackets marks pieces k ∧
      ∀ cs ds, text.toList = cs ++ ds →
        ∀ q ∈ pieces, q.span.start.byteOffset = Text.byteLength cs →
          (q.terminal.isMark = false → ∀ gap, GapText gap →
            ∃ t', TypeRef.parse (String.ofList (cs ++ (gap ++ ds))) = .ok t' ∧
              t'.name.text = t.name.text ∧ t'.dimensions = t.dimensions ∧ t'.mask = t.mask) ∧
          (q.terminal.isMark = true → ∀ comment, CommentLine comment →
            ∃ e, TypeRef.parse (String.ofList (cs ++ (comment ++ ds))) = .error e)) ∧
    ∀ (text literal : String) (span : Span),
      Value.parse text = .ok (.scalar (.literal .object literal span)) →
      ∃ lead body behind, text.toList = lead ++ ('{' :: body ++ behind) ∧
        literal.toList = '{' :: body ∧
        ∀ comment, CommentLine comment →
          (∃ span', Value.parse (String.ofList (lead ++ (comment ++ ('{' :: body ++ behind)))) =
            .ok (.scalar (.literal .object literal span'))) ∧
          ∀ front back depth depth', body = front ++ back →
            Lexical.Over back 0 front depth → Lexical.Over back depth comment depth' →
            ((∃ span', Value.parse
                (String.ofList (lead ++ ('{' :: (front ++ (comment ++ back)) ++ behind))) =
              .ok (.scalar (.literal .object
                (String.ofList ('{' :: (front ++ (comment ++ back)))) span'))) ↔
              depth' = depth) := by
  refine ⟨fun text t h => ?_, fun text literal span h => ?_⟩
  · obtain ⟨brackets, marks, pieces, k, hspelled⟩ := TypeRef.spelled_of_parse h
    refine ⟨brackets, marks, pieces, k, hspelled, fun cs ds htext q hq hstart =>
      ⟨fun hmark gap hgap => ?_, fun hmark comment hcomment => ?_⟩⟩
    · obtain ⟨t', hparse, hname, hwrapping⟩ := hspelled.padded htext hq hstart hmark hgap
      exact ⟨t', hparse, hname, congrArg Wrapping.dimensions hwrapping,
        congrArg Wrapping.mask hwrapping⟩
    · have hrefused := hspelled.refuses_comment htext hq hstart hmark hcomment
      cases hparse : TypeRef.parse (String.ofList (cs ++ (comment ++ ds))) with
      | error e => exact ⟨e, rfl⟩
      | ok t' => exact absurd hparse (hrefused t')
  · obtain ⟨lead, body, behind, htext, hliteral, hlead, hbraced, hbehind⟩ :=
      Value.object_of_parse h
    refine ⟨lead, body, behind, htext, hliteral, fun comment hcomment => ⟨?_, ?_⟩⟩
    · obtain ⟨span', hparse⟩ :=
        Value.parse_object (hlead.append hcomment.gapText) hbraced hbehind
      rw [List.append_assoc, ← hliteral, String.ofList_toList, hliteral] at hparse
      exact ⟨span', hparse⟩
    · rintro front back depth depth' rfl hfront hover
      rw [← Value.braced_comment hbraced hfront hcomment hover]
      constructor
      · rintro ⟨span', hparse⟩
        obtain ⟨_, body', _, -, hbody, -, hnew, -⟩ := Value.object_of_parse hparse
        rw [String.toList_ofList] at hbody
        obtain ⟨-, rfl⟩ := List.cons.inj hbody
        exact hnew
      · exact fun hnew => Value.parse_object hlead hnew hbehind

/-- A comment in front of a list, and one with braces inside an object literal. -/
theorem comments_inside_sample :
    (∃ t, TypeRef.parse "# !\n[T]!" = .ok t ∧ t.name.text = "T" ∧ t.dimensions = 1 ∧ t.mask = 1) ∧
    ∃ span, Value.parse "\x7b#\x7b\x7d\na:1\x7d" =
      .ok (.scalar (.literal .object "\x7b#\x7b\x7d\na:1\x7d" span)) := by
  obtain ⟨htypes, hobjects⟩ := comments_inside
  constructor
  · have hread : (TypeRef.parse "[T]!").map (fun t => (t.name.text, t.dimensions, t.mask)) =
        .ok ("T", 1, 1) := by decide +kernel
    cases hparse : TypeRef.parse "[T]!" with
    | error e =>
      rw [hparse] at hread
      cases hread
    | ok t =>
      rw [hparse, Except.map, Except.ok.injEq, Prod.mk.injEq, Prod.mk.injEq] at hread
      obtain ⟨brackets, marks, pieces, k, hspelled, hcomments⟩ := htypes _ t hparse
      obtain ⟨p, rest, rfl, ⟨kind, text, hp⟩, -⟩ := hspelled.pieces_eq
      have hskip := Cursor.skipTrivia_of_startsLexeme (k := .ofText "[T]!")
        (by rintro c ⟨⟩; decide)
      have hstart : p.span.start.byteOffset = 0 := by
        rw [hspelled.laid.2.1, Cursor.spanOf, hskip]
        rfl
      have hcomment : CommentLine "# !\n".toList :=
        .intro [' ', '!'] '\n' (by simp [Text.isLineBreak]) rfl
      obtain ⟨t', hparse', hname, hdimensions, hmask⟩ :=
        (hcomments [] _ rfl p List.mem_cons_self hstart).1 (by rw [hp]; rfl) _ hcomment.gapText
      exact ⟨t', hparse', hname.trans hread.1, hdimensions.trans hread.2.1,
        hmask.trans hread.2.2⟩
  · obtain ⟨span, hparse⟩ := Value.parse_object_sample
    obtain ⟨lead, body, behind, hsplit, hliteral, hcomments⟩ := hobjects _ _ span hparse
    have hchars : "\x7ba:1\x7d".toList = ['{', 'a', ':', '1', '}'] := by decide
    rw [hchars] at hsplit hliteral
    obtain ⟨-, rfl⟩ := List.cons.inj hliteral
    have hlength := congrArg List.length hsplit
    simp only [List.length_append, List.length_cons, List.length_nil] at hlength
    obtain rfl := List.eq_nil_of_length_eq_zero (l := lead) (by omega)
    obtain rfl := List.eq_nil_of_length_eq_zero (l := behind) (by omega)
    have hcomment : CommentLine ['#', '{', '}', '\n'] :=
      .intro ['{', '}'] '\n' (by simp [Text.isLineBreak]) rfl
    have hover : Lexical.Over ['a', ':', '1', '}'] 0 ['#', '{', '}', '\n'] 0 :=
      .char (by decide) (.opened (.closed (.char (by decide) (.nil 0))))
    obtain ⟨span', hparse'⟩ :=
      ((hcomments _ hcomment).2 [] _ 0 0 rfl (.nil 0) hover).mpr rfl
    have htext : String.ofList ['{', '#', '{', '}', '\n', 'a', ':', '1', '}'] =
        "\x7b#\x7b\x7d\na:1\x7d" := by decide
    exact ⟨span', htext ▸ hparse'⟩

/-- Neither an exclamation mark behind a comment nor a brace in one is what it is elsewhere. -/
theorem comments_not_insignificant :
    (TypeRef.parse "T!").isOk ∧ CommentLine "#\n".toList ∧
      (∀ t, TypeRef.parse "T#\n!" ≠ .ok t) ∧
    (∃ span, Value.parse "\x7ba:1\x7d" =
      .ok (.scalar (.literal .object "\x7ba:1\x7d" span))) ∧ CommentLine "#\x7d\n".toList ∧
      ∀ v, Value.parse "\x7b#\x7d\na:1\x7d" ≠ .ok v := by
  refine ⟨by decide +kernel, .intro [] '\n' (by simp) rfl, fun t ht => ?_,
    Value.parse_object_sample, .intro ['}'] '\n' (by simp [Text.isLineBreak]) rfl, fun v hv => ?_⟩
  · have hrefused : (TypeRef.parse "T#\n!").isOk = false := by decide +kernel
    rw [ht] at hrefused
    cases hrefused
  · have hrefused : (Value.parse "\x7b#\x7d\na:1\x7d").isOk = false := by decide +kernel
    rw [hv] at hrefused
    cases hrefused

end GraphQLSyntax
