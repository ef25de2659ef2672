import Mathlib.Data.List.DropRight
import GraphQLSyntax.Proofs.Scan.Trivia
import GraphQLSyntax.Text.Line

/-!
# Positions by what lies before them

A cursor counts lines and columns one character at a time. A `Trail` is what it has gone past, and
its position can be told from that as a whole.

* `Trail.position`: the position behind a trail. The line is counted from the line ends in it, the
  column from the start of its last line.
* `Cursor.passAll`: the cursor behind a trail.
* `Cursor.position_passAll`: a cursor stands at the position behind its trail.
* `GapText.passed`: there is a trail through what stands between lexemes, whatever follows.
-/

namespace GraphQLSyntax

attribute [ext] Position

/-! ## Line ends -/

/-- How many lines a text ends. A carriage return and the line feed behind it end one line. -/
def Text.lineEnds : List Char → Nat
  | [] => 0
  | '\r' :: '\n' :: cs => lineEnds cs + 1
  | c :: cs => lineEnds cs + if isLineBreak c then 1 else 0

/-- A line feed behind a carriage return ends no further line. -/
theorem Text.lineEnds_concat (cs : List Char) (c : Char) : lineEnds (cs ++ [c]) =
    lineEnds cs + if isLineBreak c ∧ ¬ (c = '\n' ∧ cs.getLast? = some '\r') then 1 else 0 := by
  fun_induction lineEnds cs with
  | case1 => simp [lineEnds]
  | case2 cs ih =>
    rw [List.cons_append, List.cons_append, lineEnds, ih]
    cases cs with
    | nil => simp [lineEnds, Nat.add_comm]
    | cons d ds => simp only [List.getLast?_cons_cons]; omega
  | case3 d cs hne ih =>
    cases cs with
    | nil =>
      by_cases hpair : d = '\r' ∧ c = '\n'
      · obtain ⟨rfl, rfl⟩ := hpair
        rfl
      · have hlast : ¬ (c = '\n' ∧ [d].getLast? = some '\r') := by
          rw [List.getLast?_singleton, Option.some.injEq]
          exact fun h => hpair ⟨h.2, h.1⟩
        have hpair' : ∀ ds, d = '\r' → [c] = '\n' :: ds → False := by
          intro ds hd hc
          exact hpair ⟨hd, (List.cons.inj hc).1⟩
        rw [List.cons_append, List.nil_append, lineEnds.eq_3 d [c] hpair']
        simp only [hlast, not_false_eq_true, and_true]
        simp [lineEnds, Nat.add_comm]
    | cons e es =>
      have hpair : ∀ ds, d = '\r' → e :: (es ++ [c]) = '\n' :: ds → False := by
        intro ds hd he
        obtain ⟨rfl, -⟩ := List.cons.inj he
        exact hne es hd rfl
      rw [List.cons_append, List.cons_append, lineEnds.eq_3 d _ hpair, ← List.cons_append, ih,
        List.getLast?_cons_cons]
      omega

/-! ## Trails -/

/-- A character that was gone past, and whether it was skipped on the way to a lexeme. -/
structure Passed where
  char : Char
  skipped : Bool
deriving DecidableEq, Repr

namespace Passed

/-- A character of a lexeme. -/
def read (c : Char) : Passed := ⟨c, false⟩

/-- A character between lexemes. -/
def skip (c : Char) : Passed := ⟨c, true⟩

/-- Whether a line goes on behind a character. -/
def inLine (p : Passed) : Bool := !Text.isLineBreak p.char

/-- Whether a character is a byte order mark between lexemes. -/
def isMark (p : Passed) : Bool := p.skipped && p.char == Lexical.byteOrderMark

end Passed

/-- What was gone past, from the start of a text on. -/
abbrev Trail := List Passed

namespace Trail

/-- The text of a trail. -/
def text (t : Trail) : List Char := t.map Passed.char

/-- The byte offset that the columns of the last line are counted from: just behind the last line
end, and behind the byte order marks that were skipped there one after the other. -/
def lineStart (t : Trail) : Nat :=
  Text.byteLength (text (t.rdropWhile Passed.inLine)) +
    Text.byteLength (text ((t.rtakeWhile Passed.inLine).takeWhile Passed.isMark))

/-- The position behind a trail. -/
def position (t : Trail) : Position :=
  let offset := Text.byteLength (text t)
  ⟨1 + Text.lineEnds (text t), offset - lineStart t + 1, offset⟩

/-- What the columns of the last line count. -/
def counted (t : Trail) : Trail := (t.rtakeWhile Passed.inLine).dropWhile Passed.isMark

@[simp] theorem text_append (t u : Trail) : text (t ++ u) = text t ++ text u := List.map_append

@[simp] theorem text_read (cs : List Char) : text (cs.map .read) = cs := by
  simp [text, Passed.read, Function.comp_def]

@[simp] theorem text_skip (cs : List Char) : text (cs.map .skip) = cs := by
  simp [text, Passed.skip, Function.comp_def]

theorem column_position (t : Trail) :
    (position t).column = Text.byteLength (text (counted t)) + 1 := by
  have hline := congrArg (Text.byteLength ∘ text)
    (List.rdropWhile_append_rtakeWhile (p := Passed.inLine) (l := t))
  have hmarks := congrArg (Text.byteLength ∘ text) (List.takeWhile_append_dropWhile
    (p := Passed.isMark) (l := t.rtakeWhile Passed.inLine))
  simp only [Function.comp_apply, text_append, Text.byteLength_append] at hline hmarks
  simp only [position, lineStart, counted]
  omega

theorem column_eq_one_iff (t : Trail) : (position t).column = 1 ↔ counted t = [] := by
  rw [column_position]
  constructor
  · intro h
    by_contra hne
    have htext : text (counted t) ≠ [] := by simpa [text] using hne
    have := Text.byteLength_pos htext
    omega
  · intro h
    rw [h]
    rfl

/-! ## One more character -/

variable (t : Trail) {p : Passed}

theorem text_concat (p : Passed) : text (t ++ [p]) = text t ++ [p.char] := text_append t [p]

/-- A line break starts the columns anew. It ends a line, unless it only completes a line end. -/
theorem position_concat_break (h : p.inLine = false) : position (t ++ [p]) =
    ⟨if p.char = '\n' ∧ (text t).getLast? = some '\r' then (position t).line
      else (position t).line + 1, 1, (position t).byteOffset + p.char.utf8Size⟩ := by
  have hbreak : Text.isLineBreak p.char := by simpa [Passed.inLine] using h
  apply Position.ext
  · simp only [position, text_concat, Text.lineEnds_concat, hbreak, true_and, ite_not]
    split <;> omega
  · rw [column_eq_one_iff, counted, List.rtakeWhile_concat_neg _ _ _ (by rw [h]; decide)]
    rfl
  · simp only [position, text_concat, Text.byteLength_append, Text.byteLength_cons,
      Text.byteLength_nil, Nat.add_zero]

/-- What the columns count grows by every character of a line but a mark at its start. -/
theorem counted_concat (h : p.inLine) : counted (t ++ [p]) =
    if p.isMark ∧ counted t = [] then [] else counted t ++ [p] := by
  rw [counted, List.rtakeWhile_concat_pos _ _ _ h, List.dropWhile_append, ← counted]
  by_cases hmark : p.isMark <;> by_cases hnil : counted t = [] <;> simp [hmark, hnil]

/-- A byte order mark that is skipped in the first column leaves the column, and any other
character that ends no line moves it. -/
theorem position_concat_inLine (h : p.inLine) : position (t ++ [p]) =
    if p.isMark ∧ (position t).column = 1 then
      ⟨(position t).line, 1, (position t).byteOffset + p.char.utf8Size⟩
    else (position t).shiftRight p.char.utf8Size := by
  have hbreak : Text.isLineBreak p.char = false := by simpa [Passed.inLine] using h
  have hline : (position (t ++ [p])).line = (position t).line := by
    simp only [position, text_concat, Text.lineEnds_concat, hbreak, Bool.false_eq_true, false_and,
      ↓reduceIte, Nat.add_zero]
  have hoffset : (position (t ++ [p])).byteOffset =
      (position t).byteOffset + p.char.utf8Size := by
    simp only [position, text_concat, Text.byteLength_append, Text.byteLength_cons,
      Text.byteLength_nil, Nat.add_zero]
  have hcounted := counted_concat t h
  by_cases hmark : p.isMark ∧ counted t = []
  · rw [if_pos hmark] at hcounted
    rw [if_pos ⟨hmark.1, (column_eq_one_iff t).mpr hmark.2⟩]
    exact Position.ext hline ((column_eq_one_iff _).mpr hcounted) hoffset
  · rw [if_neg hmark] at hcounted
    rw [if_neg fun h => hmark ⟨h.1, (column_eq_one_iff t).mp h.2⟩]
    refine Position.ext hline ?_ hoffset
    rw [column_position, hcounted, Position.shiftRight, column_position, text_concat,
      Text.byteLength_append, Text.byteLength_cons, Text.byteLength_nil]
    dsimp only
    omega

end Trail

/-! ## Cursors -/

namespace Cursor

/-- The cursor past one character. -/
def pass (k : Cursor) (p : Passed) : Cursor := if p.skipped then k.skip p.char else k.step p.char

/-- The cursor behind a trail. -/
def passAll (k : Cursor) (t : Trail) : Cursor := t.foldl pass k

theorem passAll_append (k : Cursor) (t u : Trail) :
    k.passAll (t ++ u) = (k.passAll t).passAll u := List.foldl_append

theorem passAll_read (k : Cursor) (cs : List Char) : k.passAll (cs.map .read) = k.consume cs := by
  rw [passAll, consume, List.foldl_map]
  rfl

theorem passAll_skip (k : Cursor) (cs : List Char) :
    k.passAll (cs.map .skip) = cs.foldl skip k := by
  rw [passAll, List.foldl_map]
  rfl

theorem rest_passAll (k : Cursor) (t : Trail) : (k.passAll t).rest = k.rest.drop t.length := by
  induction t generalizing k with
  | nil => rfl
  | cons p t ih =>
    have hrest : (k.pass p).rest = k.rest.tail := by
      unfold pass
      split
      · exact rest_skip k p.char
      · exact rest_step k p.char
    rw [passAll, List.foldl_cons, ← passAll, ih, hrest, List.length_cons, List.drop_tail]

/-- A byte order mark that is skipped in the first column leaves the column, and any other
character that ends no line moves it. -/
theorem pass_inLine (k : Cursor) {p : Passed} (h : p.inLine) : k.pass p =
    if p.isMark ∧ k.position.column = 1 then
      ⟨k.rest.tail, ⟨k.position.line, 1, k.position.byteOffset + p.char.utf8Size⟩, false⟩
    else ⟨k.rest.tail, k.position.shiftRight p.char.utf8Size, false⟩ := by
  obtain ⟨c, skipped⟩ := p
  have hbreak : c ≠ '\n' ∧ c ≠ '\r' := by
    simpa [Passed.inLine, Text.isLineBreak] using h
  have hstep : k.step c = ⟨k.rest.tail, k.position.shiftRight c.utf8Size, false⟩ := by
    unfold step
    dsimp only
    rw [if_neg hbreak.1, if_neg hbreak.2]
  cases skipped with
  | false => simp [pass, Passed.isMark, hstep]
  | true => simp [pass, skip, Passed.isMark, hstep]

/-- A line feed behind a carriage return ends no line, and every other line break does. -/
theorem pass_break (k : Cursor) {p : Passed} (h : p.inLine = false) : k.pass p =
    ⟨k.rest.tail, ⟨if p.char = '\n' ∧ k.afterReturn then k.position.line else k.position.line + 1,
      1, k.position.byteOffset + p.char.utf8Size⟩, p.char = '\r'⟩ := by
  obtain ⟨c, skipped⟩ := p
  have hbreak : c = '\n' ∨ c = '\r' := by
    simpa [Passed.inLine, Text.isLineBreak, Classical.or_iff_not_imp_left] using h
  have hstep : k.pass ⟨c, skipped⟩ = k.step c := by
    cases skipped with
    | false => rfl
    | true =>
      show k.skip c = k.step c
      refine if_neg fun hmark => ?_
      rcases hbreak with rfl | rfl <;> exact absurd hmark.1 (by decide)
  rw [hstep]
  rcases hbreak with rfl | rfl
  · simp [step]
    rfl
  · simp [step]
    rfl

/-- **A cursor stands at the position behind its trail.** -/
theorem position_passAll (text : String) (t : Trail) :
    ((ofText text).passAll t).position = t.position ∧
      ((ofText text).passAll t).afterReturn = decide (t.text.getLast? = some '\r') := by
  induction t using List.reverseRecOn with
  | nil => exact ⟨rfl, rfl⟩
  | append_singleton t p ih =>
    obtain ⟨hposition, hreturn⟩ := ih
    rw [passAll_append]
    generalize (ofText text).passAll t = k at hposition hreturn
    show (k.pass p).position = _ ∧ (k.pass p).afterReturn = _
    rw [Trail.text_concat, List.getLast?_concat]
    cases hp : p.inLine with
    | true =>
      have hchar : p.char ≠ '\r' := by
        intro h
        rw [Passed.inLine, h] at hp
        cases hp
      rw [pass_inLine k hp, Trail.position_concat_inLine t hp, hposition]
      split <;> simp [hchar]
    | false =>
      rw [pass_break k hp, Trail.position_concat_break t hp, hposition, hreturn]
      simp

/-! ## Going past a gap -/

/-- Moving over some text does not depend on what follows it. -/
theorem foldl_rest {move : Cursor → Char → Cursor}
    (hmove : ∀ (k : Cursor) c rest,
      move { k with rest } c = { move k c with rest := rest.tail })
    (taken : List Char) (k : Cursor) (rest : List Char) :
    taken.foldl move { k with rest } =
      { taken.foldl move k with rest := rest.drop taken.length } := by
  induction taken generalizing k rest with
  | nil => rfl
  | cons c cs ih =>
    rw [List.foldl_cons, List.foldl_cons, hmove, ih, List.drop_tail]
    rfl

theorem step_rest (k : Cursor) (c : Char) (rest : List Char) :
    { k with rest }.step c = { k.step c with rest := rest.tail } := by
  unfold step
  dsimp only
  split
  · rfl
  · split <;> rfl

theorem skip_rest (k : Cursor) (c : Char) (rest : List Char) :
    { k with rest }.skip c = { k.skip c with rest := rest.tail } := by
  unfold skip
  dsimp only
  split
  · rfl
  · exact step_rest k c rest

theorem passAll_rest (t : Trail) (k : Cursor) (rest : List Char) :
    { k with rest }.passAll t = { k.passAll t with rest := rest.drop t.length } := by
  have hpass (k : Cursor) (p : Passed) (rest : List Char) :
      { k with rest }.pass p = { k.pass p with rest := rest.tail } := by
    unfold pass
    split
    · exact skip_rest k p.char rest
    · exact step_rest k p.char rest
  induction t generalizing k rest with
  | nil => rfl
  | cons p t ih =>
    rw [passAll, passAll, List.foldl_cons, List.foldl_cons, hpass, ← passAll, ← passAll, ih,
      List.length_cons, List.drop_tail]

end Cursor

/-- Between lexemes, a cursor goes past what stands there in a way that does not depend on anything
else. -/
theorem GapText.passed {gap : List Char} (h : GapText gap) : ∃ t : Trail, t.text = gap ∧
    ∀ (k : Cursor) rest, k.rest = gap ++ rest → (k.passAll t).skipTrivia = k.skipTrivia := by
  induction h with
  | nil => exact ⟨[], rfl, fun k rest _ => rfl⟩
  | @ignorable c gap hc _ ih =>
    obtain ⟨t, rfl, hpass⟩ := ih
    refine ⟨.skip c :: t, rfl, fun k rest hrest => ?_⟩
    rw [← Cursor.skipTrivia_skip hrest hc]
    exact hpass (k.skip c) rest (by rw [Cursor.rest_skip, hrest]; rfl)
  | @comment body gap c hbody hc _ ih =>
    obtain ⟨t, rfl, hpass⟩ := ih
    refine ⟨('#' :: body).map .read ++ .skip c :: t, ?_, fun k rest hrest => ?_⟩
    · rw [Trail.text_append, Trail.text_read]
      rfl
    · rw [List.cons_append, List.append_assoc, List.cons_append] at hrest
      have hbehind : (k.consume ('#' :: body)).rest = c :: (t.text ++ rest) :=
        Cursor.rest_consume_of_append (by rw [hrest]; rfl)
      rw [Cursor.passAll_append, Cursor.passAll_read,
        ← Cursor.skipTrivia_comment hrest hbody (by rintro d ⟨⟩; exact hc),
        ← Cursor.skipTrivia_skip hbehind (Lexical.isGap_of_isLineBreak hc)]
      exact hpass ((k.consume ('#' :: body)).skip c) rest (by
        rw [Cursor.rest_skip, hbehind]
        rfl)

/-- The way to the next lexeme does not depend on that lexeme. -/
theorem Cursor.skipTrivia_rest {k : Cursor} {gap rest rest' : List Char} (hgap : GapText gap)
    (hrest : k.rest = gap ++ rest) (hstarts : StartsLexeme rest) (hstarts' : StartsLexeme rest') :
    { k with rest := gap ++ rest' }.skipTrivia = { k.skipTrivia with rest := rest' } := by
  obtain ⟨t, rfl, hpass⟩ := hgap.passed
  have hdrop (cs : List Char) : (t.text ++ cs).drop t.length = cs :=
    List.drop_left' (List.length_map _)
  have hat : (k.passAll t).skipTrivia = k.passAll t :=
    skipTrivia_of_startsLexeme (by rwa [rest_passAll, hrest, hdrop])
  rw [← hpass k rest hrest, hat, ← hpass { k with rest := t.text ++ rest' } rest' rfl,
    passAll_rest, hdrop]
  exact skipTrivia_of_startsLexeme hstarts'

end GraphQLSyntax
