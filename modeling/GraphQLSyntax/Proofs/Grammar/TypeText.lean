import GraphQLSyntax.Proofs.Grammar.Interleaved
import GraphQLSyntax.Proofs.Grammar.Sliced
import GraphQLSyntax.Proofs.Print.Spelled
import GraphQLSyntax.Proofs.Scan.Comments
import GraphQLSyntax.Proofs.Tree.Mask

/-!
# Texts that are types

A text that is a type is made of opening brackets, a name and the marks behind it.

* `TypeRef.SpelledBy`: what a text is made of as a type.
* `TypeRef.SpelledBy.parse`, `TypeRef.spelled_of_parse`: such texts are the accepted ones.
* `Wrapping.Closed.isNonNullAt_iff`: a level is marked where a mark stands behind that many lists.
* `TypeRef.outside_of_parse`: the lists and the mask of a type, read off the text outside comments.
-/

namespace GraphQLSyntax

/-- The pieces that a text is made of as a type, up to the cursor `k`. -/
structure TypeRef.SpelledBy (text name : String) (wrapping : Wrapping) (brackets : Nat)
    (marks : List Char) (pieces : List Piece) (k : Cursor) : Prop where
  laid : Laid (.ofText text) pieces k
  terminals_eq : pieces.map (·.terminal) =
    Terminal.openings brackets ++ .lexeme .name name :: marks.map .mark
  counted : Reader.countedLists brackets = wrapping.dimensions
  bounded : wrapping.dimensions < Reader.maxLists
  closed : wrapping.Closed marks
  ahead_eq : k.ahead = .eof

namespace TypeRef

variable {text name : String} {wrapping : Wrapping} {brackets : Nat} {marks : List Char}
  {pieces : List Piece} {k : Cursor} {t : TypeRef}

/-- A text that is spelled as a type is parsed as that type, up to where it is spelled. -/
theorem SpelledBy.parse (h : SpelledBy text name wrapping brackets marks pieces k) :
    ∃ t, parse text = .ok t ∧ t.name.text = name ∧ t.wrapping = wrapping ∧
      t.span.stop = k.position := by
  obtain ⟨first, rest, rfl, hfirst, hrest⟩ := List.map_eq_append_iff.mp h.terminals_eq
  obtain ⟨⟨_, span⟩, second, rfl, rfl, hsecond⟩ := List.map_eq_cons_iff.mp hrest
  let t : TypeRef :=
    ⟨.plain .name name span, wrapping, ⟨(Cursor.ofText text).skipTrivia.position, k.position⟩⟩
  have hspelled : Item.Spelled .reading
      (Item.openings brackets ++ t.name.item :: marks.map fun c => .terminal (.mark c))
      (first ++ ([⟨.lexeme .name name, span⟩] ++ second)) := by
    have hname : Item.Spelled .reading [t.name.item] [⟨.lexeme .name name, span⟩] :=
      Reader.spelled_token rfl
    refine .append ?_ (hname.append (Reader.spelled_marks hsecond))
    rw [Item.openings_eq]
    exact Item.Spelled.terminals_iff.mpr hfirst
  have hpart : (Part.node (.typeRef t)).LaidOut .reading id (.ofText text) k := by
    refine ⟨_, h.laid, ?_⟩
    rw [Piece.map_id, List.map_id]
    refine .node (n := .typeRef t) ⟨⟨rfl, rfl⟩, h.bounded⟩ (.typeRef t h.counted h.closed)
      hspelled ?_
    rintro _ ⟨⟩
    exact h.laid.covers (by simp)
  have hgives := Reader.gives_typeRef Convention.counted_reading hpart
    (by rw [h.ahead_eq]; decide)
  obtain ⟨t', r, hread, ht'⟩ := hgives.whole hpart.ahead_known.2 h.ahead_eq
  have ht' : t' = t := ht'
  exact ⟨t', parse_eq_ok.mpr ⟨r, hread⟩, by rw [ht']; rfl, by rw [ht'], by rw [ht']⟩

/-- An accepted text is spelled as the type that it is parsed as. -/
theorem spelled_of_parse (h : parse text = .ok t) : ∃ brackets marks pieces k,
    SpelledBy text t.name.text t.wrapping brackets marks pieces k := by
  obtain ⟨r, hr⟩ := parse_eq_ok.mp h
  obtain ⟨-, hread, hend⟩ := Reader.whole_eq_ok.mp hr
  obtain ⟨k, _, pieces, rfl, hlaid, hspelled, rfl⟩ := Reader.reads_typeRef _ t r hread
  obtain ⟨items, hnode⟩ := Part.Spelled.node_iff.mp hspelled.of_single
  obtain ⟨⟨hname, hlists⟩, hrule, hitems, -⟩ := hnode
  cases hrule with
  | @typeRef _ brackets marks hcounts hclosed =>
    obtain ⟨first, rest, rfl, hfirst, hrest⟩ := hitems.of_append
    rw [Item.openings_eq] at hfirst
    rw [← List.singleton_append] at hrest
    obtain ⟨named, second, rfl, hnamed, hsecond⟩ := hrest.of_append
    rw [Item.map_mark] at hsecond
    have hnamed : named.map (·.terminal) = [.lexeme .name t.name.text] := by
      cases hnamed.of_single with
      | token => rw [List.map_singleton, hname.terminal_eq]
    refine ⟨brackets, marks, _, k, hlaid, ?_, hcounts, hlists, hclosed, hend⟩
    rw [List.map_append, List.map_append, Item.Spelled.terminals_iff.mp hfirst, hnamed,
      Item.Spelled.terminals_iff.mp hsecond, List.singleton_append]

end TypeRef

/-! ## Marks and levels -/

namespace Wrapping.Closed

variable {w : Wrapping} {marks : List Char}

theorem count_eq (h : w.Closed marks) : marks.count ']' = w.dimensions := by
  rw [← h.foldl_eq, dimensions_foldl_close, dimensions, Nat.zero_add]

/-- A mark stands among the closings of the items of a list, or behind the bracket of the list. -/
theorem split_list {closings more before after : List Char}
    (h : closings ++ ']' :: more = before ++ '!' :: after) :
    (∃ mid, closings = before ++ '!' :: mid) ∨
      ∃ mid, before = closings ++ ']' :: mid ∧ more = mid ++ '!' :: after := by
  rcases List.append_eq_append_iff.mp h with ⟨front, rfl, hfront⟩ | ⟨back, rfl, hback⟩
  · cases front with
    | nil => cases hfront
    | cons c mid =>
      rw [List.cons_append, List.cons.injEq] at hfront
      obtain ⟨rfl, rfl⟩ := hfront
      exact .inr ⟨mid, rfl, rfl⟩
  · cases back with
    | nil => cases hback
    | cons c mid =>
      rw [List.cons_append, List.cons.injEq] at hback
      obtain ⟨rfl, rfl⟩ := hback
      exact .inl ⟨mid, rfl⟩

/-- A level is marked where a mark stands in front of which so many lists are left open. -/
theorem isNonNullAt_iff (h : w.Closed marks) (level : Nat) : w.isNonNullAt level = true ↔
    ∃ before after, marks = before ++ '!' :: after ∧ w.dimensions = before.count ']' + level := by
  have hnone {before : List Char} (hmarks : ∀ c ∈ before, c = '!') : before.count ']' = 0 := by
    refine List.count_eq_zero.mpr fun hmem => ?_
    exact absurd (hmarks ']' hmem) (by decide)
  induction h generalizing level with
  | @named nonNull marks h =>
    cases level with
    | zero =>
      rw [isNonNullAt, isNonNull, h.2]
      constructor
      · intro hne
        obtain ⟨c, cs, rfl⟩ := List.exists_cons_of_ne_nil hne
        exact ⟨[], cs, by rw [h.1 c (by simp)]; rfl, rfl⟩
      · rintro ⟨before, after, rfl, -⟩
        simp
    | succ level =>
      refine iff_of_false (by simp [isNonNullAt]) ?_
      rintro ⟨before, after, rfl, hdimensions⟩
      rw [hnone fun c hc => h.1 c (List.mem_append_left _ hc), dimensions] at hdimensions
      omega
  | @list nonNull items closings marks hitems h ih =>
    have hclosings := hitems.count_eq
    rw [dimensions]
    cases level with
    | zero =>
      rw [isNonNullAt, isNonNull, h.2]
      constructor
      · intro hne
        obtain ⟨c, cs, rfl⟩ := List.exists_cons_of_ne_nil hne
        refine ⟨closings ++ [']'], cs, by rw [h.1 c (by simp)]; simp, ?_⟩
        rw [List.count_append, hclosings]
        rfl
      · rintro ⟨before, after, heq, hdimensions⟩
        obtain ⟨mid, rfl⟩ | ⟨mid, -, rfl⟩ := split_list heq
        · rw [List.count_append] at hclosings
          omega
        · simp
    | succ level =>
      rw [isNonNullAt]
      refine (ih level).trans ⟨?_, ?_⟩
      · rintro ⟨before, after, rfl, hdimensions⟩
        exact ⟨before, after ++ ']' :: marks, by simp, by omega⟩
      · rintro ⟨before, after, heq, hdimensions⟩
        obtain ⟨mid, rfl⟩ | ⟨mid, rfl, -⟩ := split_list heq
        · exact ⟨before, mid, rfl, by omega⟩
        · rw [List.count_append, List.count_cons_self] at hdimensions
          omega

end Wrapping.Closed

/-! ## Outside comments -/

instance IsMark.decidable : DecidablePred IsMark := fun _ => inferInstanceAs (Decidable (_ ∨ _ ∨ _))

theorem Lexical.isMark_of_isGap (c : Char) (h : isGap c) : decide (IsMark c) = false := by
  refine decide_eq_false ?_
  rintro (rfl | rfl | rfl) <;> cases h

/-- Outside comments, the brackets and marks of a text are those of its pieces. -/
theorem Laid.filter_withoutComments {k k' : Cursor} {pieces : List Piece} (h : Laid k pieces k')
    (hpieces : ∀ p ∈ pieces, '#' ∉ p.chars) :
    (Text.withoutComments k.rest).filter (IsMark ·) =
      (pieces.flatMap Piece.chars).filter (IsMark ·) ++
        (Text.withoutComments k'.rest).filter (IsMark ·) := by
  induction pieces generalizing k with
  | nil =>
    cases h
    rfl
  | cons p ps ih =>
    obtain ⟨hp, -, h⟩ := h
    obtain ⟨gap, hrest, hbefore, -, -⟩ := hp.gap
    rw [hrest, Text.filter_withoutComments_gap Lexical.isMark_of_isGap hbefore, List.flatMap_cons,
      List.filter_append, List.append_assoc, ← ih h fun q hq => hpieces q (by simp [hq]),
      ← List.filter_append]
    exact congrArg _ (Text.withoutComments_append (hpieces p (by simp)) _)

/-- A name is made of nothing but letters, digits and underscores. -/
theorem Lexical.IsName.isNamePart {cs : List Char} (h : IsName cs) :
    ∀ c ∈ cs, Lexical.isNamePart c := by
  obtain ⟨c, tail, rfl, hc, htail⟩ := h
  exact List.forall_mem_cons.mpr ⟨isNamePart_of_isNameStart hc, htail⟩

namespace TypeRef

variable {text name : String} {wrapping : Wrapping} {brackets : Nat} {marks : List Char}
  {pieces : List Piece} {k : Cursor} {t : TypeRef}

namespace SpelledBy

/-- The characters of the pieces of a type. -/
theorem chars_eq (h : SpelledBy text name wrapping brackets marks pieces k) :
    pieces.flatMap Piece.chars = List.replicate brackets '[' ++ (name.toList ++ marks) := by
  have hopenings : (Terminal.openings brackets).flatMap Terminal.chars =
      List.replicate brackets '[' := by
    rw [List.flatMap_def, Terminal.map_chars_openings, List.flatten_replicate_singleton]
  have hchars : pieces.flatMap Piece.chars = (pieces.map (·.terminal)).flatMap Terminal.chars := by
    rw [List.flatMap_map]
    rfl
  rw [hchars, h.terminals_eq, List.flatMap_append, hopenings]
  simp [Terminal.chars, List.flatMap_map]

theorem isName (h : SpelledBy text name wrapping brackets marks pieces k) :
    Lexical.IsName name.toList := by
  obtain ⟨first, rest, rfl, -, hrest⟩ := List.map_eq_append_iff.mp h.terminals_eq
  obtain ⟨p, second, rfl, hp, -⟩ := List.map_eq_cons_iff.mp hrest
  obtain ⟨k', -, hlaid, -, -⟩ := Laid.append_iff.mp h.laid
  have hstands := hlaid.stands
  rw [hp] at hstands
  exact Lexical.isName_of_classify hstands.1

/-- Outside comments, the brackets and marks of a text are those of the type. -/
theorem filter_eq (h : SpelledBy text name wrapping brackets marks pieces k) :
    (Text.withoutComments text.toList).filter (IsMark ·) =
      List.replicate brackets '[' ++ marks := by
  have hname (c : Char) (hc : c ∈ name.toList) : c ≠ '#' ∧ ¬ IsMark c := by
    have hpart := h.isName.isNamePart c hc
    refine ⟨?_, ?_⟩
    · rintro rfl
      exact absurd hpart (by decide)
    · rintro (rfl | rfl | rfl) <;> exact absurd hpart (by decide)
  have hopenings (c : Char) (hc : c ∈ List.replicate brackets '[') : IsMark c :=
    .inl (List.eq_of_mem_replicate hc)
  have hmarks (c : Char) (hc : c ∈ marks) : IsMark c := .inr (h.closed.mem c hc)
  have hplain : ∀ p ∈ pieces, '#' ∉ p.chars := by
    intro p hp hmem
    have hchars := List.mem_flatMap.mpr ⟨p, hp, hmem⟩
    rw [h.chars_eq, List.mem_append, List.mem_append] at hchars
    rcases hchars with hc | hc | hc
    · exact absurd (hopenings _ hc) (by decide)
    · exact (hname _ hc).1 rfl
    · exact absurd (hmarks _ hc) (by decide)
  have hrest : (Text.withoutComments k.rest).filter (IsMark ·) = [] := by
    rw [← List.append_nil k.rest, Text.filter_withoutComments_gap Lexical.isMark_of_isGap
      (Cursor.gap_of_ahead h.ahead_eq)]
    rfl
  refine (h.laid.filter_withoutComments hplain).trans ?_
  rw [hrest, List.append_nil, h.chars_eq, List.filter_append, List.filter_append,
    List.filter_eq_self.mpr fun c hc => decide_eq_true (hopenings c hc),
    List.filter_eq_nil_iff.mpr fun c hc => by simpa using (hname c hc).2,
    List.filter_eq_self.mpr fun c hc => decide_eq_true (hmarks c hc), List.nil_append]

/-- In a text that is not too long, every bracket counts. -/
theorem brackets_eq (h : SpelledBy text name wrapping brackets marks pieces k)
    (hsize : Text.byteLength text.toList < UInt32.size) : brackets = wrapping.dimensions := by
  have hlength := congrArg List.length h.terminals_eq
  rw [List.length_map, List.length_append, Terminal.length_openings] at hlength
  obtain ⟨cs, hcs, -, hoffset⟩ := h.laid.spaced
  have hle := h.laid.length_le
  have hbytes : Text.byteLength text.toList = Text.byteLength (cs ++ k.rest) :=
    congrArg Text.byteLength hcs
  rw [Text.byteLength_append] at hbytes
  have hstart : (Cursor.ofText text).position.byteOffset = 0 := rfl
  rw [← h.counted, Reader.countedLists, Nat.mod_eq_of_lt (by omega)]

end SpelledBy

/-- Brackets are counted where they are kept. -/
theorem count_of_filter {before front : List Char} (hfront : '[' ∉ front)
    (h : before.filter (IsMark ·) = List.replicate brackets '[' ++ front) :
    before.count '[' = brackets ∧ before.count ']' = front.count ']' := by
  rw [← List.count_filter (p := (IsMark ·)) (a := '[') (by decide),
    ← List.count_filter (p := (IsMark ·)) (a := ']') (by decide), h]
  simp [List.count_replicate, List.count_eq_zero.mpr hfront]

section

variable {code : List Char} (hcode : code.filter (IsMark ·) = List.replicate brackets '[' ++ marks)
  (hmarks : '[' ∉ marks)

include hcode hmarks

/-- Behind all brackets that open lists, an exclamation mark of a text is one of the marks. -/
theorem marks_of_split {before after : List Char} (h : code = before ++ '!' :: after) :
    ∃ front back, marks = front ++ '!' :: back ∧ before.count '[' = brackets ∧
      before.count ']' = front.count ']' := by
  subst h
  rw [List.filter_append, List.filter_cons_of_pos (by decide)] at hcode
  obtain ⟨front, hfront, htail⟩ : ∃ front,
      before.filter (IsMark ·) = List.replicate brackets '[' ++ front ∧
        marks = front ++ '!' :: after.filter (IsMark ·) := by
    rcases List.append_eq_append_iff.mp hcode with ⟨back, hback, htail⟩ | ⟨front, hfront, htail⟩
    · cases back with
      | nil =>
        rw [List.append_nil] at hback
        exact ⟨[], hback ▸ (List.append_nil _).symm, htail.symm⟩
      | cons c back =>
        rw [List.cons_append, List.cons.injEq] at htail
        have hmem : '!' ∈ List.replicate brackets '[' :=
          hback ▸ List.mem_append_right _ (htail.1 ▸ List.mem_cons_self)
        exact absurd (List.eq_of_mem_replicate hmem) (by decide)
    · exact ⟨front, hfront, htail⟩
  exact ⟨front, _, htail, count_of_filter
    (fun hmem => hmarks (htail ▸ List.mem_append_left _ hmem)) hfront⟩

/-- The marks of a type stand in its text, behind all brackets that open lists. -/
theorem split_of_marks {front back : List Char} (h : marks = front ++ '!' :: back) :
    ∃ before after, code = before ++ '!' :: after ∧ before.count '[' = brackets ∧
      before.count ']' = front.count ']' := by
  subst h
  rw [← List.append_assoc] at hcode
  obtain ⟨first, rest, rfl, hfirst, hrest⟩ := List.filter_eq_append_iff.mp hcode
  obtain ⟨between, after, rfl, hbetween, -, -⟩ := List.filter_eq_cons_iff.mp hrest
  refine ⟨first ++ between, after, (List.append_assoc ..).symm, count_of_filter
    (fun hmem => hmarks (List.mem_append_left _ hmem)) ?_⟩
  rw [List.filter_append, hfirst, List.filter_eq_nil_iff.mpr hbetween, List.append_nil]

end

/-- A type that is read has fewer levels than its mask has bits. -/
theorem dimensions_lt_of_parse (h : parse text = .ok t) : t.dimensions < 64 := by
  obtain ⟨brackets, marks, pieces, k, hspelled⟩ := spelled_of_parse h
  exact hspelled.bounded

/-- **Types are read off their brackets and marks.** In an accepted text of fewer than `2 ^ 32`
bytes, there are as many opening and as many closing brackets outside comments as the type has
lists. A level is marked where an exclamation mark stands behind so many opening brackets that are
not closed yet, and no mark stands behind more than 63 of them. -/
theorem outside_of_parse (hsize : Text.byteLength text.toList < UInt32.size)
    (h : parse text = .ok t) :
    let code := Text.withoutComments text.toList
    code.count '[' = t.dimensions ∧ code.count ']' = t.dimensions ∧
      (∀ level, t.isNonNullAt level = true ↔ ∃ before after, code = before ++ '!' :: after ∧
        before.count '[' = before.count ']' + level) ∧
      ∀ before after, code = before ++ '!' :: after →
        ∃ shift ≤ 63, before.count '[' = before.count ']' + shift := by
  intro code
  obtain ⟨brackets, marks, pieces, k, hspelled⟩ := spelled_of_parse h
  have hclosed := hspelled.closed
  have hmarks : '[' ∉ marks := fun hmem => absurd (hclosed.mem _ hmem) (by decide)
  have hbrackets : brackets = t.dimensions := hspelled.brackets_eq hsize
  have hcode : code.filter (IsMark ·) = List.replicate brackets '[' ++ marks := hspelled.filter_eq
  obtain ⟨hopen, hclose⟩ := count_of_filter hmarks hcode
  refine ⟨hopen.trans hbrackets, hclose.trans hclosed.count_eq, fun level => ?_, ?_⟩
  · rw [isNonNullAt_eq hspelled.bounded]
    refine (hclosed.isNonNullAt_iff level).trans ⟨?_, ?_⟩
    · rintro ⟨front, back, heq, hlevel⟩
      obtain ⟨before, after, hsplit, hopen, hclose⟩ := split_of_marks hcode hmarks heq
      exact ⟨before, after, hsplit, by rw [hopen, hclose, hbrackets]; exact hlevel⟩
    · rintro ⟨before, after, hsplit, hlevel⟩
      obtain ⟨front, back, heq, hopen, hclose⟩ := marks_of_split hcode hmarks hsplit
      refine ⟨front, back, heq, ?_⟩
      rw [← hclose, ← hlevel, hopen, hbrackets]
      rfl
  · intro before after hsplit
    obtain ⟨front, back, rfl, hopen, hclose⟩ := marks_of_split hcode hmarks hsplit
    have hcount := hclosed.count_eq
    have hbound : t.wrapping.dimensions < 64 := hspelled.bounded
    have hdimensions : t.dimensions = t.wrapping.dimensions := rfl
    rw [List.count_append] at hcount
    exact ⟨before.count '[' - before.count ']', by omega, by omega⟩

end TypeRef

end GraphQLSyntax
