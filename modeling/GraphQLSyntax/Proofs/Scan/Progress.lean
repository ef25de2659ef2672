import GraphQLSyntax.Proofs.Scan.Trivia

/-!
# Loops that make progress

A loop is given by its turns: a partial function that takes a state to the next, and is undefined
where the loop is left.

* `Turns`: some turns of a loop, one after the other.
* `Progresses`: every turn leads forward, by a measure that has a limit.
* `Progresses.turns_le`, `Progresses.ends`: there are no more turns than there is way to go, so the
  loop is left.
* `Scanner.commentTurn?`, `Cursor.openingTurn?`, `Cursor.closingTurn?`, `Cursor.bracedTurn?`: the
  loops over comments, over the quotes and the characters of a string, and over an object literal.
* `Scanner.progressIn`: all of these progress, and do what the scanner does.
-/

namespace GraphQLSyntax

/-! ## Loops -/

section

variable {α : Type} {turn? : α → Option α} {holds : α → Prop} {measure : α → Nat} {limit n m : Nat}
  {a b c : α}

/-- `n` turns of a loop lead from one state to another. -/
inductive Turns (turn? : α → Option α) : (n : Nat) → (a b : α) → Prop where
  | nil (a : α) : Turns turn? 0 a a
  | cons {n : Nat} {a b c : α} (h : turn? a = some b) (hs : Turns turn? n b c) :
    Turns turn? (n + 1) a c

/-- Every turn of a loop leads forward, by a measure that never exceeds `limit`. -/
structure Progresses (turn? : α → Option α) (holds : α → Prop) (measure : α → Nat)
    (limit : Nat) : Prop where
  step : ∀ a b, holds a → turn? a = some b → holds b ∧ measure a < measure b
  within : ∀ a, holds a → measure a ≤ limit

namespace Progresses

/-- What holds before some turns holds behind them, and each of them leads on by one at least. -/
theorem turns (h : Progresses turn? holds measure limit) (hs : Turns turn? n a b) (ha : holds a) :
    holds b ∧ n + measure a ≤ measure b := by
  induction hs with
  | nil => exact ⟨ha, by omega⟩
  | cons hturn _ ih =>
    obtain ⟨hb, hlt⟩ := h.step _ _ ha hturn
    obtain ⟨hc, hle⟩ := ih hb
    exact ⟨hc, by omega⟩

/-- A loop that progresses has no more turns than there is way to go. -/
theorem turns_le (h : Progresses turn? holds measure limit) (hs : Turns turn? n a b)
    (ha : holds a) : n + measure a ≤ limit := by
  obtain ⟨hb, hle⟩ := h.turns hs ha
  exact Nat.le_trans hle (h.within b hb)

/-- A loop that progresses is left. -/
theorem ends (h : Progresses turn? holds measure limit) (ha : holds a) :
    ∃ n b, Turns turn? n a b ∧ turn? b = none := by
  induction hway : limit - measure a using Nat.strongRecOn generalizing a with
  | _ way ih =>
    cases hturn : turn? a with
    | none => exact ⟨0, a, .nil a, hturn⟩
    | some b =>
      obtain ⟨hb, hlt⟩ := h.step a b ha hturn
      have hle := h.within b hb
      obtain ⟨n, c, hs, hc⟩ := ih (limit - measure b) (by omega) hb rfl
      exact ⟨n + 1, c, .cons hturn hs, hc⟩

end Progresses

end

/-! ## Cursors in a text -/

namespace Cursor

variable {text : String} {k k' : Cursor}

theorem Reaches.offset_le (h : k.Reaches text) :
    k.position.byteOffset ≤ Text.byteLength text.toList := by
  have := h.byteLength_rest
  omega

theorem Reaches.skipGap (h : k.Reaches text) : k.skipGap.Reaches text :=
  h.move _ k.rest_eq_gap_append (byteOffset_skipGap k)

theorem Reaches.advance {s : Scanner} (h : s.cursor.Reaches text) :
    s.advance.cursor.Reaches text := by
  rw [Scanner.advance_eq]
  exact h.skipGap.consume (Lexical.classify_isPrefix _)

/-- A loop takes text: every turn goes past something that stands at the cursor. -/
def TakesText {σ : Type} (turn? : Cursor × σ → Option (Cursor × σ)) : Prop :=
  ∀ k x k' x', turn? (k, x) = some (k', x') →
    ∃ taken, taken ≠ [] ∧ k.rest = taken ++ k'.rest ∧ k' = k.consume taken

theorem TakesText.progresses {σ : Type} {turn? : Cursor × σ → Option (Cursor × σ)}
    (h : TakesText turn?) (text : String) : Progresses turn? (fun a => a.1.Reaches text)
      (fun a => a.1.position.byteOffset) (Text.byteLength text.toList) := by
  refine ⟨?_, fun a ha => ha.offset_le⟩
  rintro ⟨k, x⟩ ⟨k', x'⟩ hk hturn
  obtain ⟨taken, hne, hrest, rfl⟩ := h k x k' x' hturn
  refine ⟨hk.consume ⟨_, hrest.symm⟩, ?_⟩
  rw [byteOffset_consume]
  exact Nat.lt_add_of_pos_right (Text.byteLength_pos hne)

/-- Text that stands at a cursor is gone past in one step per character. -/
theorem rest_eq_append_step {c : Char} {cs : List Char} (h : k.rest = c :: cs) :
    k.rest = [c] ++ (k.step c).rest := by
  rw [rest_step, h]
  rfl

end Cursor

/-! ## Lexemes and comments -/

namespace Scanner

variable {text : String}

/-- The next lexeme is the end of the input, or unknown, or the cursor goes past it. -/
theorem advance_forward (s : Scanner) : s.advance.lexeme = .eof ∨ s.advance.lexeme = .unknown ∨
    s.cursor.position.byteOffset ≤ s.advance.start.byteOffset ∧
      s.advance.start.byteOffset < s.advance.cursor.position.byteOffset := by
  by_cases heof : s.advance.lexeme = .eof
  · exact .inl heof
  by_cases hunknown : s.advance.lexeme = .unknown
  · exact .inr (.inl hunknown)
  · have hpos := Text.byteLength_pos (Lexical.classify_ne_nil heof hunknown)
    have hgap := s.cursor.byteOffset_skipGap
    rw [advance_eq]
    dsimp only [ofCursor]
    rw [Cursor.byteOffset_consume]
    omega

/-- Goes past a comment, if that is the next lexeme. -/
def commentTurn? (s : Scanner) : Option Scanner :=
  if s.advance.lexeme = .comment then some s.advance else none

theorem progresses_commentTurn? (text : String) :
    Progresses commentTurn? (fun s => s.cursor.Reaches text)
      (fun s => s.cursor.position.byteOffset) (Text.byteLength text.toList) := by
  refine ⟨fun s s' hs hturn => ?_, fun s hs => hs.offset_le⟩
  unfold commentTurn? at hturn
  split at hturn
  · rename_i hcomment
    cases hturn
    rcases s.advance_forward with h | h | h
    · rw [hcomment] at h
      cases h
    · rw [hcomment] at h
      cases h
    · exact ⟨hs.advance, by omega⟩
  · cases hturn

/-- Passing over comments goes past one after the other, and then to the next lexeme. -/
theorem turns_comment (s : Scanner) : ∃ n s', Turns commentTurn? n s s' ∧ commentTurn? s' = none ∧
    s.advancePastComments = s'.advance := by
  fun_induction advancePastComments s with
  | case1 s h ih =>
    obtain ⟨n, s', hs, hend, heq⟩ := ih
    exact ⟨n + 1, s', .cons (if_pos h) hs, hend, heq⟩
  | case2 s h => exact ⟨0, s, .nil s, if_neg h, rfl⟩

end Scanner

/-! ## Strings -/

namespace Cursor

variable {text : String} {k k' : Cursor} {n m seen seen' : Nat}

/-- Goes past a quote that opens a string, and counts it. -/
def openingTurn? : Cursor × Nat → Option (Cursor × Nat)
  | (k, seen) => if k.rest.head? = some '"' then some (k.step '"', seen + 1) else none

/-- Goes past a character of a string that `n` quotes close, or past a backslash and the character
behind it, and counts the quotes that have just gone by. -/
def closingTurn? (n : Nat) : Cursor × Nat → Option (Cursor × Nat)
  | (k, seen) =>
    if n ≤ seen then none
    else match k.rest with
      | [] => none
      | c :: cs =>
        if c = '"' then some (k.step c, seen + 1)
        else if c = '\\' then cs.head?.map fun escaped => (k.consume [c, escaped], 0)
        else some (k.step c, 0)

theorem takesText_openingTurn? : TakesText openingTurn? := by
  intro k seen k' seen' h
  unfold openingTurn? at h
  dsimp only at h
  split at h
  · rename_i hquote
    cases h
    obtain ⟨cs, hrest⟩ := List.head?_eq_some_iff.mp hquote
    exact ⟨['"'], by simp, rest_eq_append_step hrest, rfl⟩
  · cases h

/-- The quotes that open a string are gone past one by one. -/
theorem consume_quotes_of_turns (hs : Turns openingTurn? m (k, seen) (k', seen'))
    (hend : openingTurn? (k', seen') = none) :
    k' = k.consume (Lexical.quotes k.rest) ∧ seen' = seen + (Lexical.quotes k.rest).length := by
  generalize ha : (k, seen) = a at hs
  generalize hb : (k', seen') = b at hs
  induction hs generalizing k seen with
  | nil =>
    cases ha.trans hb.symm
    have hquote : k'.rest.head? ≠ some '"' := by
      intro hquote
      rw [openingTurn?, if_pos hquote] at hend
      cases hend
    have hnone : Lexical.quotes k'.rest = [] := by
      unfold Lexical.quotes
      cases hrest : k'.rest with
      | nil => rfl
      | cons c cs =>
        rw [hrest] at hquote
        exact List.takeWhile_cons_of_neg (by simpa using hquote)
    rw [hnone]
    exact ⟨rfl, rfl⟩
  | cons hturn _ ih =>
    subst ha
    unfold openingTurn? at hturn
    dsimp only at hturn
    split at hturn
    · rename_i hquote
      cases hturn
      obtain ⟨cs, hrest⟩ := List.head?_eq_some_iff.mp hquote
      obtain ⟨hk', hseen'⟩ := ih rfl hb
      have hquotes : Lexical.quotes k.rest = '"' :: Lexical.quotes (k.step '"').rest := by
        rw [rest_step, hrest]
        rfl
      rw [hquotes, consume_cons, List.length_cons]
      exact ⟨hk', by omega⟩
    · cases hturn

/-- One turn takes what the search for the closing quotes takes first. -/
theorem throughClosing?_of_turn (h : closingTurn? n (k, seen) = some (k', seen')) :
    ∃ taken, taken ≠ [] ∧ k.rest = taken ++ k'.rest ∧ k' = k.consume taken ∧
      Lexical.throughClosing? n seen k.rest =
        (Lexical.throughClosing? n seen' k'.rest).map (taken ++ ·) := by
  unfold closingTurn? at h
  dsimp only at h
  split at h
  · cases h
  · rename_i hseen
    split at h
    · cases h
    · rename_i c cs hrest
      split at h
      · rename_i hquote
        cases h
        refine ⟨[c], by simp, rest_eq_append_step hrest, rfl, ?_⟩
        rw [rest_step, hrest, Lexical.throughClosing?.eq_def]
        simp only [if_neg hseen, if_pos hquote]
        rfl
      · rename_i hquote
        split at h
        · rename_i hslash
          cases cs with
          | nil => cases h
          | cons escaped cs =>
            cases h
            have hbehind : (k.consume [c, escaped]).rest = cs := by rw [rest_consume, hrest]; rfl
            refine ⟨[c, escaped], by simp, ?_, rfl, ?_⟩
            · rw [hbehind, hrest]
              rfl
            · simp only [hbehind, hrest, Lexical.throughClosing?, if_neg hseen, if_neg hquote,
                if_pos hslash]
              rfl
        · rename_i hslash
          cases h
          refine ⟨[c], by simp, rest_eq_append_step hrest, rfl, ?_⟩
          rw [rest_step, hrest, Lexical.throughClosing?.eq_def]
          simp only [if_neg hseen, if_neg hquote, if_neg hslash]
          rfl

/-- The search is over where the quotes have gone by, or else where the text ends. -/
theorem throughClosing?_of_left (h : closingTurn? n (k, seen) = none) :
    Lexical.throughClosing? n seen k.rest = if n ≤ seen then some [] else none := by
  unfold closingTurn? at h
  dsimp only at h
  by_cases hseen : n ≤ seen
  · rw [if_pos hseen]
    cases k.rest <;> rw [Lexical.throughClosing?.eq_def] <;> exact if_pos hseen
  · rw [if_neg hseen] at h
    rw [if_neg hseen]
    split at h
    · rename_i hrest
      simp only [hrest, Lexical.throughClosing?, if_neg hseen]
    · rename_i c cs hrest
      split at h
      · cases h
      · rename_i hquote
        split at h
        · rename_i hslash
          cases cs with
          | nil =>
            simp only [hrest, Lexical.throughClosing?, if_neg hseen, if_neg hquote, if_pos hslash]
          | cons => cases h
        · cases h

theorem takesText_closingTurn? (n : Nat) : TakesText (closingTurn? n) := by
  intro k seen k' seen' h
  obtain ⟨taken, hne, hrest, hk', -⟩ := throughClosing?_of_turn h
  exact ⟨taken, hne, hrest, hk'⟩

/-- The characters of a string are gone past turn by turn. -/
theorem throughClosing?_of_turns (hs : Turns (closingTurn? n) m (k, seen) (k', seen'))
    (hend : closingTurn? n (k', seen') = none) :
    ∃ taken, k.rest = taken ++ k'.rest ∧ k' = k.consume taken ∧
      Lexical.throughClosing? n seen k.rest = if n ≤ seen' then some taken else none := by
  generalize ha : (k, seen) = a at hs
  generalize hb : (k', seen') = b at hs
  induction hs generalizing k seen with
  | nil =>
    cases ha.trans hb.symm
    exact ⟨[], rfl, rfl, throughClosing?_of_left hend⟩
  | @cons _ _ middle _ hturn _ ih =>
    subst ha
    obtain ⟨k₁, seen₁⟩ := middle
    obtain ⟨first, -, hfirst, rfl, heq⟩ := throughClosing?_of_turn hturn
    obtain ⟨taken, hrest, rfl, hih⟩ := ih rfl hb
    refine ⟨first ++ taken, ?_, (consume_append _ _ _).symm, ?_⟩
    · rw [List.append_assoc, ← hrest, ← hfirst]
    · rw [heq, hih]
      split <;> rfl

/-! ## Object literals -/

/-- Goes past a character of an object literal, or past a string in it, and counts the braces that
are open. -/
def bracedTurn? : Cursor × Nat → Option (Cursor × Nat)
  | (k, depth) =>
    match k.rest with
    | [] => none
    | c :: _ =>
      if c = '"' then
        let literal := Lexical.quoted false k.rest
        if literal.1 = .unknown then none else some (k.consume literal.2, depth)
      else if c = '{' then some (k.step c, depth + 1)
      else if c = '}' then
        match depth with
        | 0 => none
        | depth + 1 => some (k.step c, depth)
      else some (k.step c, depth)

variable {depth depth' : Nat}

/-- One turn takes what an object literal starts with. -/
theorem braced_of_turn (h : bracedTurn? (k, depth) = some (k', depth')) :
    ∃ taken, taken ≠ [] ∧ k.rest = taken ++ k'.rest ∧ k' = k.consume taken ∧
      Lexical.braced depth k.rest = Lexical.Taken.after taken (Lexical.braced depth' k'.rest) := by
  unfold bracedTurn? at h
  dsimp only at h
  split at h
  · cases h
  · rename_i c cs hrest
    split at h
    · rename_i hquote
      split at h
      · cases h
      · rename_i hknown
        cases h
        subst hquote
        obtain ⟨behind, hbehind⟩ := Lexical.quoted_isPrefix false k.rest
        refine ⟨(Lexical.quoted false k.rest).2, ?_, ?_, rfl, ?_⟩
        · rw [hrest]
          exact Lexical.quoted_ne_nil false cs
        · rw [rest_consume_of_append hbehind.symm, hbehind]
        · rw [rest_consume]
          rw [hrest] at hknown ⊢
          rw [Lexical.braced.eq_def]
          simp only [↓reduceIte, if_neg hknown]
    · rename_i hquote
      split at h
      · rename_i hopen
        cases h
        refine ⟨[c], by simp, rest_eq_append_step hrest, rfl, ?_⟩
        rw [rest_step, hrest, Lexical.braced.eq_def]
        simp only [if_neg hquote, if_pos hopen]
        rfl
      · rename_i hopen
        split at h
        · rename_i hclose
          cases depth with
          | zero => cases h
          | succ depth =>
            cases h
            refine ⟨[c], by simp, rest_eq_append_step hrest, rfl, ?_⟩
            rw [rest_step, hrest, Lexical.braced.eq_def]
            simp only [if_neg hquote, if_neg hopen, if_pos hclose]
            rfl
        · rename_i hclose
          cases h
          refine ⟨[c], by simp, rest_eq_append_step hrest, rfl, ?_⟩
          rw [rest_step, hrest, Lexical.braced.eq_def]
          simp only [if_neg hquote, if_neg hopen, if_neg hclose]
          rfl

/-- The literal is over at the brace that closes it, or else it is unknown. -/
theorem braced_of_left (h : bracedTurn? (k, depth) = none) :
    Lexical.braced depth k.rest = (.object, ['}']) ∨
      (Lexical.braced depth k.rest).1 = .unknown := by
  unfold bracedTurn? at h
  dsimp only at h
  split at h
  · rename_i hrest
    rw [hrest, Lexical.braced]
    exact .inr rfl
  · rename_i c cs hrest
    split at h
    · rename_i hquote
      split at h
      · rename_i hunknown
        rw [hrest] at hunknown ⊢
        subst hquote
        rw [Lexical.braced.eq_def]
        simp only [↓reduceIte, if_pos hunknown]
        exact .inr hunknown
      · cases h
    · rename_i hquote
      split at h
      · cases h
      · rename_i hopen
        split at h
        · rename_i hclose
          cases depth with
          | zero =>
            rw [hrest, Lexical.braced.eq_def]
            simp only [if_neg hquote, if_neg hopen, if_pos hclose]
            exact .inl (by rw [hclose])
          | succ depth => cases h
        · cases h

theorem takesText_bracedTurn? : TakesText bracedTurn? := by
  intro k depth k' depth' h
  obtain ⟨taken, hne, hrest, hk', -⟩ := braced_of_turn h
  exact ⟨taken, hne, hrest, hk'⟩

/-- An object literal is gone past turn by turn. -/
theorem braced_of_turns (hs : Turns bracedTurn? m (k, depth) (k', depth')) :
    ∃ taken, k.rest = taken ++ k'.rest ∧ k' = k.consume taken ∧
      Lexical.braced depth k.rest = Lexical.Taken.after taken (Lexical.braced depth' k'.rest) := by
  generalize ha : (k, depth) = a at hs
  generalize hb : (k', depth') = b at hs
  induction hs generalizing k depth with
  | nil =>
    cases ha.trans hb.symm
    exact ⟨[], rfl, rfl, rfl⟩
  | @cons _ _ middle _ hturn _ ih =>
    subst ha
    obtain ⟨k₁, depth₁⟩ := middle
    obtain ⟨first, -, hfirst, rfl, heq⟩ := braced_of_turn hturn
    obtain ⟨taken, hrest, rfl, hih⟩ := ih rfl hb
    refine ⟨first ++ taken, ?_, (consume_append _ _ _).symm, ?_⟩
    · rw [List.append_assoc, ← hrest, ← hfirst]
    · rw [heq, hih, Lexical.Taken.after, Lexical.Taken.after, Lexical.Taken.after,
        List.append_assoc]

end Cursor

/-! ## All loops of the scanner -/

/-- A loop from `a` is left, and `P` holds of how often it turned and of where it is left. -/
def LeftWith {α : Type} (turn? : α → Option α) (a : α) (P : Nat → α → Prop) : Prop :=
  ∃ n b, Turns turn? n a b ∧ turn? b = none ∧ P n b

theorem Progresses.leftWith {α : Type} {turn? : α → Option α} {holds : α → Prop}
    {measure : α → Nat} {limit : Nat} {a : α} {P : Nat → α → Prop}
    (h : Progresses turn? holds measure limit) (ha : holds a)
    (hP : ∀ n b, Turns turn? n a b → turn? b = none → P n b) : LeftWith turn? a P := by
  obtain ⟨n, b, hs, hb⟩ := h.ends ha
  exact ⟨n, b, hs, hb, hP n b hs hb⟩

/-- Scanning `text` goes forward. A lexeme is gone past, unless it is the end of the input or
unknown. Every turn of a loop that is not left goes past something, too, and behind its turns a loop
has found what the scanner finds. -/
structure Scanner.ProgressIn (text : String) : Prop where
  advance : ∀ s : Scanner, s.cursor.Reaches text → s.advance.cursor.Reaches text ∧
    s.advance.cursor.position.byteOffset ≤ Text.byteLength text.toList ∧
    (s.advance.lexeme = .eof ∨ s.advance.lexeme = .unknown ∨
      s.cursor.position.byteOffset ≤ s.advance.start.byteOffset ∧
        s.advance.start.byteOffset < s.advance.cursor.position.byteOffset)
  comments : Progresses commentTurn? (fun s => s.cursor.Reaches text)
    (fun s => s.cursor.position.byteOffset) (Text.byteLength text.toList)
  comments_left : ∀ s, LeftWith commentTurn? s fun _ s' => s.advancePastComments = s'.advance
  opening : Progresses Cursor.openingTurn? (fun a => a.1.Reaches text)
    (fun a => a.1.position.byteOffset) (Text.byteLength text.toList)
  opening_left : ∀ k : Cursor, k.Reaches text → LeftWith Cursor.openingTurn? (k, 0) fun _ a =>
    a.1 = k.consume (Lexical.quotes k.rest) ∧ a.2 = (Lexical.quotes k.rest).length
  closing : ∀ quotes, Progresses (Cursor.closingTurn? quotes) (fun a => a.1.Reaches text)
    (fun a => a.1.position.byteOffset) (Text.byteLength text.toList)
  closing_left : ∀ quotes (k : Cursor), k.Reaches text →
    LeftWith (Cursor.closingTurn? quotes) (k, 0) fun _ a => ∃ taken, a.1 = k.consume taken ∧
      Lexical.throughClosing? quotes 0 k.rest = if quotes ≤ a.2 then some taken else none
  objects : Progresses Cursor.bracedTurn? (fun a => a.1.Reaches text)
    (fun a => a.1.position.byteOffset) (Text.byteLength text.toList)
  objects_left : ∀ k : Cursor, k.Reaches text →
    LeftWith Cursor.bracedTurn? (k, 0) fun _ a => ∃ taken, a.1 = k.consume taken ∧
      Lexical.braced 0 k.rest = Lexical.Taken.after taken (Lexical.braced a.2 a.1.rest) ∧
      (Lexical.braced a.2 a.1.rest = (.object, ['}']) ∨
        (Lexical.braced a.2 a.1.rest).1 = .unknown)

theorem Scanner.progressIn (text : String) : ProgressIn text where
  advance s hs := ⟨hs.advance, hs.advance.offset_le, s.advance_forward⟩
  comments := progresses_commentTurn? text
  comments_left := turns_comment
  opening := Cursor.takesText_openingTurn?.progresses text
  opening_left k hk := (Cursor.takesText_openingTurn?.progresses text).leftWith hk
    fun n a hs ha => by
      obtain ⟨hcursor, hseen⟩ := Cursor.consume_quotes_of_turns hs ha
      exact ⟨hcursor, by rw [hseen, Nat.zero_add]⟩
  closing quotes := (Cursor.takesText_closingTurn? quotes).progresses text
  closing_left quotes k hk := ((Cursor.takesText_closingTurn? quotes).progresses text).leftWith hk
    fun n a hs ha => by
      obtain ⟨taken, -, htaken, hclosing⟩ := Cursor.throughClosing?_of_turns hs ha
      exact ⟨taken, htaken, hclosing⟩
  objects := Cursor.takesText_bracedTurn?.progresses text
  objects_left k hk := (Cursor.takesText_bracedTurn?.progresses text).leftWith hk
    fun n a hs ha => by
      obtain ⟨taken, -, htaken, hbraced⟩ := Cursor.braced_of_turns hs
      exact ⟨taken, htaken, hbraced, Cursor.braced_of_left ha⟩

end GraphQLSyntax
