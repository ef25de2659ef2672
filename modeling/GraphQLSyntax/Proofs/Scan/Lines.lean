import GraphQLSyntax.Proofs.Scan.Trail
import GraphQLSyntax.Text.Slice

/-!
# Lines by number and by offset

A diagnostic looks a line up by its number, one line end after the other. A position has counted
that number one character at a time. Both come to the line that stands around the position.

* `Text.lineAt?`: the line around a byte offset, up to the line breaks next to it.
* `Text.line?_append`: between two texts, the line by its number is the line around.
* `Trail.column_eq`, `Trail.position_read`: columns in a line.
-/

namespace GraphQLSyntax

namespace Text

variable {before after cs ds : List Char} {c : Char}

/-- Whether a line goes on behind a character. -/
def inLine (c : Char) : Bool := !isLineBreak c

/-- Line breaks stand between lexemes. -/
theorem inLine_of_not_gap (h : Lexical.isGap c = false) : inLine c := by
  rw [inLine, Bool.eq_false_iff.mpr fun hbreak =>
    absurd (Lexical.isGap_of_isLineBreak hbreak) (by rw [h]; decide)]
  rfl

/-- The line around the place between two texts. -/
def lineAround (before after : List Char) : List Char :=
  before.rtakeWhile inLine ++ after.takeWhile inLine

/-- The line around a byte offset, when that lies between characters. -/
def lineAt? (offset : Nat) (cs : List Char) : Option (List Char) :=
  (takeBytes? offset cs).bind fun before => (dropBytes? offset cs).map (lineAround before)

/-- Between two texts, a line end of two characters is cut in the middle. -/
def CutsLineEnd (before after : List Char) : Prop :=
  before.getLast? = some '\r' ∧ after.head? = some '\n'

@[simp] theorem lineAt?_append (before after : List Char) :
    lineAt? (byteLength before) (before ++ after) = some (lineAround before after) := by
  simp [lineAt?]

/-! ## Counting line ends -/

theorem lineEnds_le_append (cs ds : List Char) : lineEnds cs ≤ lineEnds (cs ++ ds) := by
  induction ds using List.reverseRecOn with
  | nil => simp
  | append_singleton ds d ih =>
    rw [← List.append_assoc, lineEnds_concat]
    omega

theorem lineEnds_eq_zero_iff : lineEnds cs = 0 ↔ ∀ c ∈ cs, inLine c := by
  fun_induction lineEnds cs with
  | case1 => simp
  | case2 cs ih => simp [inLine, isLineBreak]
  | case3 c cs hne ih => simp [inLine, ih, and_comm]

/-- A line break ends a line, wherever no line end is cut before it. -/
theorem lineEnds_lt_append (hcut : ¬ CutsLineEnd cs ds) (hbreak : ¬ ∀ d ∈ ds, inLine d) :
    lineEnds cs < lineEnds (cs ++ ds) := by
  obtain ⟨inside, d, rest, rfl, hinside, hd⟩ : ∃ inside d rest, ds = inside ++ d :: rest ∧
      (∀ e ∈ inside, inLine e) ∧ isLineBreak d := by
    have hne : ds.dropWhile inLine ≠ [] := by simpa [List.dropWhile_eq_nil_iff] using hbreak
    obtain ⟨d, rest, hrest⟩ := List.exists_cons_of_ne_nil hne
    refine ⟨ds.takeWhile inLine, d, rest, ?_, fun e he => List.mem_takeWhile_imp he, ?_⟩
    · rw [← hrest, List.takeWhile_append_dropWhile]
    · have := List.head?_dropWhile_not inLine ds
      rw [hrest] at this
      simpa [inLine] using this
  -- What stands before the break is no carriage return, unless it is the seam that is not cut.
  have hnot : ¬ (d = '\n' ∧ (cs ++ inside).getLast? = some '\r') := by
    rintro ⟨rfl, hlast⟩
    cases inside using List.reverseRecOn with
    | nil => exact hcut ⟨by simpa using hlast, rfl⟩
    | append_singleton inside e =>
      rw [← List.append_assoc, List.getLast?_concat, Option.some.injEq] at hlast
      have := hinside e (by simp)
      rw [hlast] at this
      cases this
  calc
    lineEnds cs ≤ lineEnds (cs ++ inside) := lineEnds_le_append _ _
    _ < lineEnds (cs ++ inside ++ [d]) := by
      rw [lineEnds_concat, if_pos ⟨hd, hnot⟩]
      omega
    _ ≤ lineEnds (cs ++ inside ++ [d] ++ rest) := lineEnds_le_append _ _
    _ = lineEnds (cs ++ (inside ++ d :: rest)) := by simp

/-! ## Lines by number -/

theorem afterLine?_of_inLine (hc : isLineBreak c = false) :
    afterLine? (c :: cs) = afterLine? cs := by
  have hreturn : ∀ ds, c = '\r' → cs = '\n' :: ds → False := by
    rintro ds rfl
    cases hc
  rw [afterLine?.eq_3 _ _ hreturn, if_neg (by simp [hc])]

theorem afterLine?_of_break (hc : isLineBreak c) (hcut : ¬ CutsLineEnd [c] cs) :
    afterLine? (c :: cs) = some cs := by
  have hreturn : ∀ ds, c = '\r' → cs = '\n' :: ds → False := by
    rintro ds rfl rfl
    exact hcut ⟨rfl, rfl⟩
  rw [afterLine?.eq_3 _ _ hreturn, if_pos hc]

theorem line?_one (cs : List Char) : line? 1 cs = some (cs.takeWhile inLine) := rfl

theorem line?_of_inLine (hc : isLineBreak c = false) (n : Nat) :
    line? (n + 2) (c :: cs) = line? (n + 2) cs := by
  rw [line?, line?, afterLine?_of_inLine hc]

theorem line?_of_break (hc : isLineBreak c) (hcut : ¬ CutsLineEnd [c] cs) (n : Nat) :
    line? (n + 2) (c :: cs) = line? (n + 1) cs := by
  rw [line?, afterLine?_of_break hc hcut, Option.bind_some]

/-- What precedes the last line goes on to be no part of it. -/
theorem rtakeWhile_cons (c : Char) (cs : List Char) : (c :: cs).rtakeWhile inLine =
    if lineEnds cs = 0 ∧ inLine c then c :: cs else cs.rtakeWhile inLine := by
  simp only [lineEnds_eq_zero_iff]
  induction cs using List.reverseRecOn with
  | nil => simp [List.rtakeWhile, List.takeWhile_cons, apply_ite List.reverse]
  | append_singleton cs d ih =>
    rw [← List.cons_append, List.rtakeWhile_concat, List.rtakeWhile_concat, ih]
    by_cases hd : inLine d
    · simp only [hd, ↓reduceIte, apply_ite (· ++ [d]), List.forall_mem_append,
        List.forall_mem_singleton, and_true, List.cons_append]
    · have hall : ¬ ((∀ e ∈ cs ++ [d], inLine e) ∧ inLine c) := fun h => hd (h.1 d (by simp))
      rw [if_neg hd, if_neg hd, if_neg hall]

theorem lineAround_cons (c : Char) (before after : List Char) : lineAround (c :: before) after =
    if lineEnds before = 0 ∧ inLine c then c :: lineAround before after
    else lineAround before after := by
  rw [lineAround, rtakeWhile_cons]
  split
  · rename_i h
    rw [lineAround, List.rtakeWhile_eq_self_iff.mpr (lineEnds_eq_zero_iff.mp h.1)]
    rfl
  · rfl

theorem CutsLineEnd.cons (h : CutsLineEnd before after) (c : Char) :
    CutsLineEnd (c :: before) after := by
  obtain ⟨ds, rfl⟩ := List.getLast?_eq_some_iff.mp h.1
  exact ⟨by rw [← List.cons_append, List.getLast?_concat], h.2⟩

/-- **The line by its number is the line around.** -/
theorem line?_append (hcut : ¬ CutsLineEnd before after) :
    line? (lineEnds before + 1) (before ++ after) = some (lineAround before after) := by
  fun_induction lineEnds before with
  | case1 => rfl
  | case2 cs ih =>
    have hcut' : ¬ CutsLineEnd cs after := fun h => hcut ((h.cons _).cons _)
    rw [lineAround_cons, if_neg (by rintro ⟨-, ⟨⟩⟩), lineAround_cons, if_neg (by rintro ⟨-, ⟨⟩⟩),
      ← ih hcut']
    rfl
  | case3 c cs hne ih =>
    have hcut' : ¬ CutsLineEnd cs after := fun h => hcut (h.cons c)
    rw [lineAround_cons, List.cons_append]
    cases hc : isLineBreak c with
    | true =>
      have hnext : ¬ CutsLineEnd [c] (cs ++ after) := by
        rintro ⟨hreturn, hfeed⟩
        obtain rfl : c = '\r' := by simpa using hreturn
        cases cs with
        | nil => exact hcut ⟨rfl, hfeed⟩
        | cons d ds => exact hne ds rfl (by simpa using hfeed)
      rw [if_neg (c := _ ∧ _) (by simp [inLine, hc]), ← ih hcut']
      exact line?_of_break hc hnext _
    | false =>
      have hin : inLine c := by simp [inLine, hc]
      have hline := ih hcut'
      show line? (lineEnds cs + 1) (c :: (cs ++ after)) = _
      cases hcount : lineEnds cs with
      | zero =>
        rw [hcount] at hline
        rw [if_pos ⟨rfl, hin⟩, line?_one, List.takeWhile_cons_of_pos hin]
        rw [line?_one, Option.some.injEq] at hline
        rw [hline]
      | succ n =>
        rw [hcount] at hline
        rw [if_neg (by simp), ← hline]
        exact line?_of_inLine hc n

end Text

namespace Trail

open Text

variable {text : String} {t : Trail} {after cs : List Char}

/-! ## Columns -/

theorem one_le_column (t : Trail) : 1 ≤ t.position.column := Nat.le_add_left _ _

/-- Without byte order marks, every character of a line counts. -/
theorem column_eq (h : Lexical.byteOrderMark ∉ t.text) :
    t.position.column = byteLength (t.text.rtakeWhile inLine) + 1 := by
  have hnone : ∀ p ∈ t.rtakeWhile Passed.inLine, ¬ p.isMark := by
    intro p hp hmark
    have hchar : p.char = Lexical.byteOrderMark := by
      simpa using (Bool.and_eq_true_iff.mp hmark).2
    exact h (List.mem_map.mpr ⟨p, (List.rtakeWhile_suffix _ _).subset hp, hchar⟩)
  have hcounted : counted t = t.rtakeWhile Passed.inLine := by
    rw [counted, List.dropWhile_eq_self_iff]
    exact fun hpos => hnone _ (List.getElem_mem hpos)
  have htext : Trail.text (t.rtakeWhile Passed.inLine) = t.text.rtakeWhile inLine := by
    rw [Trail.text, Trail.text, List.rtakeWhile, List.rtakeWhile, ← List.map_reverse,
      List.takeWhile_map, List.map_reverse]
    rfl
  rw [column_position, hcounted, htext]

theorem byteOffset_read (t : Trail) (cs : List Char) :
    (t ++ cs.map Passed.read).position.byteOffset = t.position.byteOffset + byteLength cs := by
  simp only [position, text_append, text_read, byteLength_append]

/-- Reading on in a line moves the column by the bytes that are read. -/
theorem position_read (t : Trail) (h : ∀ c ∈ cs, inLine c) :
    (t ++ cs.map Passed.read).position = t.position.shiftRight (byteLength cs) := by
  induction cs using List.reverseRecOn with
  | nil => simp [Position.shiftRight]
  | append_singleton cs c ih =>
    have hread : Passed.inLine (.read c) := h c (by simp)
    rw [List.map_append, ← List.append_assoc, List.map_singleton, position_concat_inLine _ hread,
      if_neg (by rintro ⟨⟨⟩, -⟩), ih fun d hd => h d (by simp [hd])]
    simp [Position.shiftRight, Passed.read, Nat.add_assoc]

/-- Reading past a line break leads to another line. -/
theorem line_lt_read (hcut : ¬ CutsLineEnd t.text cs) (h : ¬ ∀ c ∈ cs, inLine c) :
    t.position.line < (t ++ cs.map Passed.read).position.line := by
  have := lineEnds_lt_append hcut h
  simp only [position, text_append, text_read]
  omega

/-! ## Lines -/

/-- The line with the number of a position stands around it. -/
theorem line?_position (h : text.toList = t.text ++ after) (hcut : ¬ CutsLineEnd t.text after) :
    line? t.position.line text.toList = some (lineAround t.text after) := by
  rw [h, position, Nat.add_comm]
  exact line?_append hcut

/-- In that line, the column is where what follows the position starts. -/
theorem dropBytes?_column (h : Lexical.byteOrderMark ∉ t.text) (after : List Char) :
    dropBytes? (t.position.column - 1) (lineAround t.text after) =
      some (after.takeWhile inLine) := by
  rw [column_eq h, Nat.add_sub_cancel, lineAround, dropBytes?_append]

end Trail

end GraphQLSyntax
