import Mathlib.Data.List.Infix
import GraphQLSyntax.Proofs.Lexical.Object

/-!
# Units of object literals

Behind its opening brace, an object literal is read unit by unit: a string, an empty string, or a
character that is no quote. It ends at the first brace that closes more than was opened.

* `Escaped`: text with no quote that would end a string.
* `IsUnit`, `Units`: what is read as one unit, and a series of them, in front of a text.
* `Stops`: where no further unit can be read.
* `exists_units`: every text is units up to where that is so.
* `Closes`: a series of units up to the first brace that closes more than was opened.
* `Units.braced_of_closes`, `Units.braced_of_staysOpen`: what becomes of the literal.
-/

namespace GraphQLSyntax.Lexical

/-! ## Units -/

/-- A text in which a backslash stands before every quote and every other backslash, and before
some character of the text wherever it stands itself. -/
inductive Escaped : List Char → Prop where
  | nil : Escaped []
  | plain {c : Char} {cs : List Char} (hc : c ≠ '"' ∧ c ≠ '\\') (h : Escaped cs) :
    Escaped (c :: cs)
  | escape (c : Char) {cs : List Char} (h : Escaped cs) : Escaped ('\\' :: c :: cs)

/-- In front of `rest`, a text is one unit. A string is not empty: its quotes would be a run of two
otherwise. Behind a run of quotes no further quote stands. -/
inductive IsUnit (rest : List Char) : List Char → Prop where
  | char {c : Char} (hc : c ≠ '"') : IsUnit rest [c]
  | string {body : List Char} (hne : body ≠ []) (h : Escaped body) :
    IsUnit rest ('"' :: (body ++ ['"']))
  | run {n : Nat} (hn : n = 2 ∨ n = 6) (hrest : rest.head? ≠ some '"') :
    IsUnit rest (List.replicate n '"')

/-- In front of `rest`, texts are units one after another. -/
inductive Units (rest : List Char) : List (List Char) → Prop where
  | nil : Units rest []
  | cons {unit : List Char} {units : List (List Char)} (h : IsUnit (units.flatten ++ rest) unit)
    (hunits : Units rest units) : Units rest (unit :: units)

/-- No unit can be read: nothing is left, a string is not closed, or a run of quotes opens nothing.
What is gone past to see that is `seen`, and `behind` is left behind it. -/
inductive Stops : (seen behind : List Char) → Prop where
  | nothing : Stops [] []
  | unclosed {body : List Char} (h : Escaped body) : Stops ('"' :: body) []
  | dangling {body : List Char} (h : Escaped body) : Stops ('"' :: (body ++ ['\\'])) []
  | run {n : Nat} {behind : List Char} (hn : n ∉ [0, 1, 2, 6])
    (hbehind : behind.head? ≠ some '"') : Stops (List.replicate n '"') behind

variable {rest seen behind unit body : List Char} {units more : List (List Char)} {depth : Nat}

theorem Units.append_iff :
    Units rest (units ++ more) ↔ Units (more.flatten ++ rest) units ∧ Units rest more := by
  induction units with
  | nil => exact ⟨fun h => ⟨.nil, h⟩, And.right⟩
  | cons unit units ih =>
    have hflatten : (units ++ more).flatten ++ rest = units.flatten ++ (more.flatten ++ rest) := by
      rw [List.flatten_append, List.append_assoc]
    rw [List.cons_append]
    constructor
    · rintro (_ | ⟨h, hunits⟩)
      obtain ⟨hunits, hmore⟩ := ih.mp hunits
      exact ⟨.cons (hflatten ▸ h) hunits, hmore⟩
    · rintro ⟨_ | ⟨h, hunits⟩, hmore⟩
      exact .cons (hflatten ▸ h) (ih.mpr ⟨hunits, hmore⟩)

/-! ## Units and string literals -/

/-- A string goes on over text in which quotes are escaped. -/
theorem Escaped.throughClosing?_eq (h : Escaped body) (rest : List Char) :
    throughClosing? 1 0 (body ++ rest) = (throughClosing? 1 0 rest).map (body ++ ·) := by
  induction h with
  | nil => exact (Option.map_id' ..).symm
  | plain hc _ ih => simp [throughClosing?.eq_def 1 0 (_ :: _), hc, ih, Function.comp_def]
  | escape c _ ih => simp [throughClosing?.eq_def 1 0 (_ :: _), ih, Function.comp_def]

theorem Escaped.head (h : Escaped body) : body.head? ≠ some '"' := by
  cases h with
  | nil => exact Option.some_ne_none _ |>.symm
  | plain hc _ => exact fun heq => hc.1 (Option.some.inj heq)
  | escape c _ => exact fun heq => absurd (Option.some.inj heq) (by decide)

theorem quotes_replicate (n : Nat) (hrest : rest.head? ≠ some '"') :
    quotes (List.replicate n '"' ++ rest) = List.replicate n '"' := by
  rw [quotes_append hrest]
  exact List.takeWhile_eq_self_iff.mpr fun c hc => beq_iff_eq.mpr (List.eq_of_mem_replicate hc)

/-- A run of two or six quotes is a string. -/
theorem quoted_even {n : Nat} (hn : n = 2 ∨ n = 6) (hrest : rest.head? ≠ some '"') :
    quoted false (List.replicate n '"' ++ rest) = (.string, List.replicate n '"') := by
  rw [quoted, quotes_replicate n hrest, List.length_replicate]
  rcases hn with rfl | rfl <;> rfl

/-- A run of quotes of any other length opens nothing, other than a single one. -/
theorem quoted_other {n : Nat} (hn : n ∉ [1, 2, 6]) (hrest : rest.head? ≠ some '"') :
    quoted false (List.replicate n '"' ++ rest) = (.unknown, List.replicate n '"') := by
  simp only [List.mem_cons, List.not_mem_nil, or_false, not_or] at hn
  rw [quoted, quotes_replicate n hrest, List.length_replicate]
  split
  · exact absurd rfl hn.1
  · exact absurd rfl hn.2.1
  · exact absurd rfl hn.2.2
  · rfl
  · rfl

/-- A single quote opens a string. -/
theorem quoted_single (h : Escaped body) (hhead : (body ++ rest).head? ≠ some '"') :
    quoted false ('"' :: (body ++ rest)) =
      match throughClosing? 1 0 rest with
      | some closing => (.string, '"' :: (body ++ closing))
      | none => (.unknown, '"' :: (body ++ rest)) := by
  have hquotes : quotes ('"' :: (body ++ rest)) = ['"'] := quotes_replicate 1 hhead
  rw [quoted, hquotes]
  show closedBy 1 .string ['"'] (body ++ rest) = _
  rw [closedBy, h.throughClosing?_eq]
  cases throughClosing? 1 0 rest <;> rfl

theorem throughClosing?_quote (rest : List Char) :
    throughClosing? 1 0 ('"' :: rest) = some ['"'] := by
  have hclosed : throughClosing? 1 1 rest = some [] := by
    rw [throughClosing?.eq_def]
    cases rest <;> exact if_pos (Nat.le_refl 1)
  rw [throughClosing?.eq_def]
  show ((throughClosing? 1 1 rest).map ('"' :: ·)) = _
  rw [hclosed]
  rfl

/-- A unit is a character, or a string literal. -/
theorem IsUnit.cases (h : IsUnit rest unit) :
    (∃ c, unit = [c] ∧ c ≠ '"') ∨ quoted false (unit ++ rest) = (.string, unit) := by
  cases h with
  | @char c hc => exact .inl ⟨c, rfl, hc⟩
  | @string body hne h =>
    have hhead : (body ++ '"' :: rest).head? ≠ some '"' := by
      obtain ⟨c, cs, rfl⟩ := List.exists_cons_of_ne_nil hne
      exact h.head
    refine .inr ?_
    have hquoted := quoted_single h hhead
    rw [throughClosing?_quote] at hquoted
    rw [List.cons_append, List.append_assoc]
    exact hquoted
  | run hn hrest => exact .inr (quoted_even hn hrest)

/-- Where no unit can be read, nothing is left, or a string literal is unknown. -/
theorem Stops.cases (h : Stops seen behind) : (seen = [] ∧ behind = []) ∨
    (∃ tail, seen ++ behind = '"' :: tail) ∧ quoted false (seen ++ behind) = (.unknown, seen) := by
  cases h with
  | nothing => exact .inl ⟨rfl, rfl⟩
  | @unclosed body h =>
    have hhead : (body ++ []).head? ≠ some '"' := by
      rw [List.append_nil]
      exact h.head
    have hquoted := quoted_single h hhead
    rw [List.append_nil] at hquoted
    rw [List.append_nil]
    exact .inr ⟨⟨body, rfl⟩, hquoted⟩
  | @dangling body h =>
    have hhead : (body ++ ['\\']).head? ≠ some '"' := by
      cases body with
      | nil => decide
      | cons c cs => exact h.head
    rw [List.append_nil]
    exact .inr ⟨⟨_, rfl⟩, quoted_single h hhead⟩
  | @run n behind hn hbehind =>
    simp only [List.mem_cons, not_or] at hn
    obtain ⟨m, rfl⟩ := Nat.exists_eq_succ_of_ne_zero hn.1
    exact .inr ⟨⟨_, rfl⟩, quoted_other (by simpa using hn.2) hbehind⟩

/-- Where no unit can be read, an object literal ends unknown. -/
theorem Stops.braced_eq (h : Stops seen behind) (depth : Nat) :
    braced depth (seen ++ behind) = (.unknown, seen) := by
  obtain ⟨rfl, rfl⟩ | ⟨⟨tail, htail⟩, hquoted⟩ := h.cases
  · exact braced.eq_def ..
  · rw [htail] at hquoted
    rw [htail, braced_cons, if_pos rfl, hquoted, if_pos rfl]

/-! ## Every text is made of units -/

/-- A text goes on with escaped quotes up to one that is not, or up to its end. -/
theorem exists_escaped (cs : List Char) : ∃ body rest, cs = body ++ rest ∧ Escaped body ∧
    (rest = [] ∨ rest = ['\\'] ∨ rest.head? = some '"') := by
  induction h : cs.length using Nat.strong_induction_on generalizing cs with
  | h n ih =>
    subst h
    match cs with
    | [] => exact ⟨[], [], rfl, .nil, .inl rfl⟩
    | c :: cs =>
      by_cases hquote : c = '"'
      · exact ⟨[], c :: cs, rfl, .nil, .inr (.inr (congrArg some hquote))⟩
      by_cases hslash : c = '\\'
      · subst hslash
        match cs with
        | [] => exact ⟨[], _, rfl, .nil, .inr (.inl rfl)⟩
        | c :: cs =>
          obtain ⟨body, rest, rfl, hbody, hrest⟩ := ih _ (by simp +arith) cs rfl
          exact ⟨'\\' :: c :: body, rest, rfl, hbody.escape c, hrest⟩
      · obtain ⟨body, rest, rfl, hbody, hrest⟩ := ih _ (by simp) cs rfl
        exact ⟨c :: body, rest, rfl, .plain ⟨hquote, hslash⟩ hbody, hrest⟩

/-- A text starts with a unit, or none can be read. -/
theorem exists_unit (cs : List Char) :
    (∃ unit rest, cs = unit ++ rest ∧ unit ≠ [] ∧ IsUnit rest unit) ∨
      ∃ seen behind, cs = seen ++ behind ∧ Stops seen behind := by
  have hquotes : quotes cs = List.replicate (quotes cs).length '"' :=
    List.eq_replicate_of_mem fun c hc => by simpa using List.mem_takeWhile_imp hc
  obtain ⟨n, rest, rfl, hrest⟩ :
      ∃ n rest, cs = List.replicate n '"' ++ rest ∧ rest.head? ≠ some '"' := by
    refine ⟨(quotes cs).length, cs.dropWhile (· == '"'), ?_, fun h => ?_⟩
    · rw [← hquotes]
      exact List.takeWhile_append_dropWhile.symm
    · have hhead := List.head?_dropWhile_not (· == '"') cs
      rw [h] at hhead
      exact absurd hhead (by decide)
  by_cases hn : n ∈ [0, 1, 2, 6]
  · simp only [List.mem_cons, List.not_mem_nil, or_false] at hn
    rcases hn with rfl | rfl | hn
    · cases rest with
      | nil => exact .inr ⟨[], [], rfl, .nothing⟩
      | cons c rest => exact .inl ⟨[c], rest, rfl, by simp, .char fun h => hrest (congrArg some h)⟩
    · obtain ⟨body, rest, rfl, hbody, rfl | rfl | hquote⟩ := exists_escaped rest
      · exact .inr ⟨'"' :: body, [], by simp, .unclosed hbody⟩
      · exact .inr ⟨'"' :: (body ++ ['\\']), [], by simp, .dangling hbody⟩
      · obtain ⟨rest, rfl⟩ := List.head?_eq_some_iff.mp hquote
        have hne : body ≠ [] := by
          rintro rfl
          exact hrest rfl
        exact .inl ⟨'"' :: (body ++ ['"']), rest, by simp, by simp, .string hne hbody⟩
    · refine .inl ⟨List.replicate n '"', rest, rfl, ?_, .run hn hrest⟩
      rcases hn with rfl | rfl <;> exact List.cons_ne_nil _ _
  · exact .inr ⟨_, rest, rfl, .run hn hrest⟩

/-- **Every text is units up to where no further one can be read.** -/
theorem exists_units (cs : List Char) : ∃ units seen behind,
    cs = units.flatten ++ (seen ++ behind) ∧ Units (seen ++ behind) units ∧ Stops seen behind := by
  induction h : cs.length using Nat.strong_induction_on generalizing cs with
  | h n ih =>
    subst h
    obtain ⟨unit, rest, rfl, hne, hunit⟩ | ⟨seen, behind, rfl, hstops⟩ := exists_unit cs
    · have hlt : rest.length < (unit ++ rest).length := by
        have := List.length_pos_iff.mpr hne
        rw [List.length_append]
        omega
      obtain ⟨units, seen, behind, rfl, hunits, hstops⟩ := ih _ hlt rest rfl
      exact ⟨unit :: units, seen, behind, by simp, .cons hunit hunits, hstops⟩
    · exact ⟨[], seen, behind, rfl, .nil, hstops⟩

/-! ## Braces -/

/-- Nowhere along these units are more braces closed than opened, with `depth` of them open
before. -/
def StaysOpen (depth : Nat) (units : List (List Char)) : Prop :=
  ∀ front, front <+: units → front.count ['}'] ≤ front.count ['{'] + depth

/-- Only the last of these units closes more braces than were opened. -/
def Closes (units : List (List Char)) : Prop :=
  units.count ['}'] = units.count ['{'] + 1 ∧
    ∀ front, front <+: units → front ≠ units → front.count ['}'] ≤ front.count ['{']

instance (units : List (List Char)) : Decidable (Closes units) :=
  decidable_of_iff (units.count ['}'] = units.count ['{'] + 1 ∧
    ∀ front ∈ units.inits, front ≠ units → front.count ['}'] ≤ front.count ['{'])
    (by simp only [List.mem_inits, Closes])

theorem count_cons_eq (a unit : List Char) (units : List (List Char)) :
    (unit :: units).count a = [unit].count a + units.count a := by
  rw [← List.count_append, List.singleton_append]

theorem StaysOpen.tail {depth' : Nat} (h : StaysOpen depth (unit :: units))
    (hdepth : [unit].count ['{'] + depth = [unit].count ['}'] + depth') :
    StaysOpen depth' units := by
  intro front hfront
  have hle := h (unit :: front) (List.cons_prefix_cons.mpr ⟨rfl, hfront⟩)
  rw [count_cons_eq _ unit front, count_cons_eq _ unit front] at hle
  omega

/-- While braces are open, an object literal goes on over units. -/
theorem Units.over (h : Units rest units) (hopen : StaysOpen depth units) :
    ∃ depth', depth' + units.count ['}'] = depth + units.count ['{'] ∧
      Over rest depth units.flatten depth' := by
  induction h generalizing depth with
  | nil => exact ⟨depth, rfl, .nil depth⟩
  | @cons unit units hunit _ ih =>
    rw [count_cons_eq _ unit units, count_cons_eq _ unit units]
    by_cases hbrace : unit = ['{']
    · subst hbrace
      have htail : StaysOpen (depth + 1) units := hopen.tail (by simp; omega)
      obtain ⟨depth', hdepth, hover⟩ := ih htail
      exact ⟨depth', by simp; omega, hover.opened⟩
    by_cases hclose : unit = ['}']
    · subst hclose
      have hone := hopen [['}']] (List.prefix_append _ _)
      obtain ⟨depth, rfl⟩ : ∃ d, depth = d + 1 := ⟨depth - 1, by simp at hone; omega⟩
      have htail : StaysOpen depth units := hopen.tail (by simp; omega)
      obtain ⟨depth', hdepth, hover⟩ := ih htail
      exact ⟨depth', by simp; omega, hover.closed⟩
    have hcount : [unit].count ['{'] = 0 ∧ [unit].count ['}'] = 0 := by simp [hbrace, hclose]
    obtain ⟨depth', hdepth, hover⟩ := ih (hopen.tail (by rw [hcount.1, hcount.2]))
    refine ⟨depth', by rw [hcount.1, hcount.2]; omega, ?_⟩
    obtain ⟨c, rfl, hc⟩ | hquoted := hunit.cases
    · exact .char ⟨hc, fun h => hbrace (by rw [h]), fun h => hclose (by rw [h])⟩ hover
    · exact .literal (by simpa using hquoted) hover

/-- Units that close a brace are units that stay open, and that brace. -/
theorem Closes.exists_open (h : Closes units) : ∃ front, units = front ++ [['}']] ∧
    StaysOpen 0 front ∧ front.count ['}'] = front.count ['{'] := by
  obtain ⟨hcount, hfronts⟩ := h
  obtain rfl | ⟨front, unit, rfl⟩ := List.eq_nil_or_concat' units
  · cases hcount
  have hopen : StaysOpen 0 front := by
    intro front' hfront'
    refine hfronts front' (hfront'.trans (List.prefix_append _ _)) ?_
    rintro rfl
    have hle := hfront'.length_le
    rw [List.length_append, List.length_singleton] at hle
    omega
  have hle := hopen front (List.prefix_refl _)
  rw [List.count_append, List.count_append] at hcount
  have hunit : unit = ['}'] := by
    by_contra hne
    have hnone : [unit].count ['}'] = 0 := by simp [hne]
    omega
  subst hunit
  exact ⟨front, rfl, hopen, by simp at hcount; omega⟩

/-- Where units close more braces than they open, some of them are the first to do so. -/
theorem exists_closes (h : units.count ['{'] < units.count ['}']) :
    ∃ first, first <+: units ∧ Closes first := by
  induction hlength : units.length using Nat.strong_induction_on generalizing units with
  | h n ih =>
    subst hlength
    by_cases hfronts : ∃ front, front <+: units ∧ front ≠ units ∧
        front.count ['{'] < front.count ['}']
    · obtain ⟨front, hfront, hne, hlt⟩ := hfronts
      have hshorter : front.length < units.length :=
        Nat.lt_of_le_of_ne hfront.length_le fun heq => hne (hfront.eq_of_length heq)
      obtain ⟨first, hfirst, hcloses⟩ := ih _ hshorter hlt rfl
      exact ⟨first, hfirst.trans hfront, hcloses⟩
    · push Not at hfronts
      refine ⟨units, List.prefix_refl _, ?_, hfronts⟩
      obtain rfl | ⟨front, unit, rfl⟩ := List.eq_nil_or_concat' units
      · cases h
      have hle := hfronts front (List.prefix_append _ _) (by simp)
      have hone : [unit].count ['}'] ≤ 1 := List.count_le_length
      rw [List.count_append, List.count_append] at h ⊢
      by_cases hunit : unit = ['}']
      · subst hunit
        simp at h ⊢
        omega
      · have hnone : [unit].count ['}'] = 0 := by simp [hunit]
        omega

/-! ## What becomes of the literal -/

/-- **An object literal ends behind the first brace that closes more than was opened.** -/
theorem Units.braced_of_closes (h : Units rest units) (hcloses : Closes units) :
    braced 0 (units.flatten ++ rest) = (.object, units.flatten) := by
  obtain ⟨front, rfl, hopen, hcount⟩ := hcloses.exists_open
  obtain ⟨hfront, -⟩ := append_iff.mp h
  obtain ⟨depth, hdepth, hover⟩ := hfront.over hopen
  obtain rfl : depth = 0 := by omega
  rw [List.flatten_append, List.append_assoc, hover.braced_eq]
  show Taken.after front.flatten (braced 0 ('}' :: rest)) = _
  rw [braced_cons, if_neg (by decide), if_neg (by decide), if_pos rfl]
  rfl

/-- Where none closes more than was opened, it is unknown from where no unit can be read. -/
theorem Units.braced_of_staysOpen (h : Units (seen ++ behind) units) (hopen : StaysOpen 0 units)
    (hstops : Stops seen behind) :
    braced 0 (units.flatten ++ (seen ++ behind)) = (.unknown, units.flatten ++ seen) := by
  obtain ⟨depth, -, hover⟩ := h.over hopen
  rw [hover.braced_eq, hstops.braced_eq]
  rfl

/-- An object literal ends if anywhere one brace more is closed than was opened. -/
theorem braced_object_iff {cs : List Char} : (braced 0 cs).1 = .object ↔
    ∃ units rest, cs = units.flatten ++ rest ∧ Units rest units ∧
      units.count ['}'] = units.count ['{'] + 1 := by
  constructor
  · intro h
    obtain ⟨units, seen, behind, rfl, hunits, hstops⟩ := exists_units cs
    by_cases hopen : StaysOpen 0 units
    · rw [hunits.braced_of_staysOpen hopen hstops] at h
      cases h
    · unfold StaysOpen at hopen
      push Not at hopen
      obtain ⟨front, ⟨more, rfl⟩, hlt⟩ := hopen
      obtain ⟨first, ⟨more', rfl⟩, hcloses⟩ := exists_closes hlt
      rw [List.append_assoc] at hunits ⊢
      refine ⟨first, _, ?_, (Units.append_iff.mp hunits).1, hcloses.1⟩
      rw [List.flatten_append, List.append_assoc]
  · rintro ⟨units, rest, rfl, hunits, hcount⟩
    have hmore : units.count ['{'] < units.count ['}'] := by omega
    obtain ⟨first, ⟨more, rfl⟩, hcloses⟩ := exists_closes hmore
    rw [List.flatten_append, List.append_assoc,
      (Units.append_iff.mp hunits).1.braced_of_closes hcloses]

end GraphQLSyntax.Lexical
