import GraphQLSyntax.Proofs.Lexical.OneByte
import GraphQLSyntax.Proofs.Scan.Trivia
import GraphQLSyntax.Proofs.Text.Boundary
import GraphQLSyntax.Proofs.Text.Bytes

/-!
# Cursors that go on byte by byte

A text may be gone through byte by byte as well. A character of more than one byte is then gone past
in several steps, which lead through places inside it.

* `ByteCursor`: a place in a text, given by its offset and by where its line starts.
* `ByteCursor.consumeByte`, `ByteCursor.consumeWhile`, `ByteCursor.skipIgnorables`: its steps.
* `ByteCursor.At`: it stands where a cursor does, so between two characters.
* `ByteCursor.At.meets`: what it meets there, and where it gets to behind the next character.
-/

namespace GraphQLSyntax

/-! ## Bytes of characters -/

namespace Text

variable {c : Char} {b : UInt8}

/-- A character of one byte is that byte. -/
theorem ofUInt8_toUInt8 (h : c.utf8Size = 1) : Char.ofUInt8 c.val.toUInt8 = c := by
  have hle := UInt32.le_iff_toNat_le.mp (Char.utf8Size_eq_one_iff.mp h)
  have hmax : (127 : UInt32).toNat = 127 := rfl
  apply Char.ext
  apply UInt32.toNat_inj.mp
  show (c.val.toUInt8.toUInt32).toNat = c.val.toNat
  rw [UInt8.toNat_toUInt32, UInt32.toNat_toUInt8]
  omega

theorem utf8Size_ofUInt8_ne_one (h : 128 ≤ b.toNat) : (Char.ofUInt8 b).utf8Size ≠ 1 := by
  intro hsize
  have hle := UInt32.le_iff_toNat_le.mp (Char.utf8Size_eq_one_iff.mp hsize)
  have hmax : (127 : UInt32).toNat = 127 := rfl
  have hval : (Char.ofUInt8 b).val.toNat = b.toNat := UInt8.toNat_toUInt32 b
  omega

/-- No byte of a longer character is a character of its own. -/
theorem utf8Size_ne_one_of_mem (h : c.utf8Size ≠ 1) (hb : b ∈ String.utf8EncodeChar c) :
    (Char.ofUInt8 b).utf8Size ≠ 1 := by
  have hor (x y : UInt8) (hy : 128 ≤ y.toNat) : 128 ≤ (x ||| y).toNat := by
    rw [UInt8.toNat_or]
    exact Nat.le_trans hy Nat.right_le_or
  apply utf8Size_ofUInt8_ne_one
  obtain h1 | h2 | h3 | h4 := Char.utf8Size_eq c
  · exact absurd h1 h
  · rw [String.utf8EncodeChar_eq_cons_cons h2] at hb
    simp only [List.mem_cons, List.not_mem_nil, or_false] at hb
    rcases hb with rfl | rfl <;> exact hor _ _ (by decide)
  · rw [String.utf8EncodeChar_eq_cons_cons_cons h3] at hb
    simp only [List.mem_cons, List.not_mem_nil, or_false] at hb
    rcases hb with rfl | rfl | rfl <;> exact hor _ _ (by decide)
  · rw [String.utf8EncodeChar_eq_cons_cons_cons_cons h4] at hb
    simp only [List.mem_cons, List.not_mem_nil, or_false] at hb
    rcases hb with rfl | rfl | rfl | rfl <;> exact hor _ _ (by decide)

end Text

/-! ## Steps over bytes -/

/-- A place in a text by the number of bytes before it, whether or not it is inside a character. The
line starts `lineStart` bytes into the text. -/
structure ByteCursor where
  source : String
  offset : Nat
  line : Nat
  lineStart : Nat
  afterReturn : Bool
deriving DecidableEq, Repr, Inhabited

namespace ByteCursor

/-- The cursor before the first byte. -/
def ofText (text : String) : ByteCursor := ⟨text, 0, 1, 0, false⟩

/-- The bytes that are left. -/
def left (k : ByteCursor) : List UInt8 := (Text.bytes k.source.toList).drop k.offset

/-- The byte that is `n` bytes on, as the character of that number. -/
def nth? (k : ByteCursor) (n : Nat) : Option Char := (k.left[n]?).map Char.ofUInt8

/-- The next byte, as the character of that number. -/
def peek? (k : ByteCursor) : Option Char := k.nth? 0

/-- Whether there is a next byte, and it is one that `p` asks for. -/
def next (p : Char → Bool) (k : ByteCursor) : Bool := k.peek?.any p

/-- Where the cursor stands. The column is measured from where the line starts. -/
def position (k : ByteCursor) : Position := ⟨k.line, k.offset - k.lineStart + 1, k.offset⟩

/-- The cursor past one byte. -/
def consumeByte (k : ByteCursor) : ByteCursor :=
  match k.peek? with
  | none => k
  | some b =>
    let offset := k.offset + 1
    if b = '\n' then
      -- The line was counted at the carriage return.
      let line := if k.afterReturn then k.line else k.line + 1
      { k with offset, line, lineStart := offset, afterReturn := false }
    else if b = '\r' then
      { k with offset, line := k.line + 1, lineStart := offset, afterReturn := true }
    else { k with offset, afterReturn := false }

/-- The cursor past the byte order mark, which does not count as columns at the start of a line. -/
def skipMark (k : ByteCursor) : ByteCursor :=
  let offset := k.offset + Lexical.byteOrderMark.utf8Size
  let lineStart := if k.offset = k.lineStart then offset else k.lineStart
  { k with offset, lineStart, afterReturn := false }

variable {k k' : ByteCursor} {b : Char}

theorem left_consumeByte (k : ByteCursor) : k.consumeByte.left = k.left.tail := by
  unfold consumeByte
  cases hpeek : k.peek? with
  | none =>
    have hleft : k.left = [] := by simpa [peek?, nth?] using hpeek
    dsimp only
    rw [hleft]
    rfl
  | some b =>
    dsimp only
    split
    · exact List.tail_drop.symm
    · split <;> exact List.tail_drop.symm

theorem length_left_consumeByte_lt (h : k.peek? = some b) :
    k.consumeByte.left.length < k.left.length := by
  have hpos : 0 < k.left.length := by
    refine List.length_pos_iff.mpr fun hnil => ?_
    simp [peek?, nth?, hnil] at h
  rw [left_consumeByte, List.length_tail]
  omega

theorem length_left_consumeByte_le (k : ByteCursor) :
    k.consumeByte.left.length ≤ k.left.length := by
  rw [left_consumeByte, List.length_tail]
  exact Nat.sub_le _ _

theorem nth?_succ (k : ByteCursor) (n : Nat) : k.nth? (n + 1) = k.consumeByte.nth? n := by
  rw [nth?, nth?, left_consumeByte, List.getElem?_tail]

theorem length_left_skipMark_lt (h : k.peek? = some b) :
    k.skipMark.left.length < k.left.length := by
  have hpos := Nat.lt_of_le_of_lt (Nat.zero_le _) (length_left_consumeByte_lt h)
  have hmark := Lexical.byteOrderMark.utf8Size_pos
  unfold left at hpos ⊢
  rw [List.length_drop] at hpos
  rw [List.length_drop, List.length_drop]
  dsimp only [skipMark]
  omega

/-- The cursor past all bytes that are what `p` asks for. -/
def consumeWhile (p : Char → Bool) (k : ByteCursor) : ByteCursor :=
  match h : k.peek? with
  | none => k
  | some b =>
    have := length_left_consumeByte_lt h
    if p b then k.consumeByte.consumeWhile p else k
termination_by k.left.length

/-- The cursor past white space, commas and byte order marks. -/
def skipIgnorables (k : ByteCursor) : ByteCursor :=
  match h : k.peek? with
  | none => k
  | some b =>
    have := length_left_consumeByte_lt h
    have := length_left_skipMark_lt h
    if Lexical.isIgnorable b then k.consumeByte.skipIgnorables
    else if (String.utf8EncodeChar Lexical.byteOrderMark).isPrefixOf k.left then
      k.skipMark.skipIgnorables
    else k
termination_by k.left.length

theorem length_left_skipIgnorables_le (k : ByteCursor) :
    k.skipIgnorables.left.length ≤ k.left.length := by
  fun_induction skipIgnorables k with
  | case1 => exact Nat.le_refl _
  | case2 k b h hbyte _ _ ih => exact Nat.le_trans ih (Nat.le_of_lt hbyte)
  | case3 k b h _ hmark _ _ ih => exact Nat.le_trans ih (Nat.le_of_lt hmark)
  | case4 => exact Nat.le_refl _

/-! ## Bytes and characters -/

/-- A byte cursor stands where a cursor does, and its line starts between two characters. -/
structure At (text : String) (k : ByteCursor) (c : Cursor) : Prop where
  source_eq : k.source = text
  reaches : c.Reaches text
  position_eq : k.position = c.position
  lineStart_le : k.lineStart ≤ k.offset
  lineStart_at : Text.IsBoundary text k.lineStart
  afterReturn_eq : k.afterReturn = c.afterReturn

/-- Some bytes are gone past, none of which is a character of its own. -/
inductive Wades : ByteCursor → ByteCursor → Prop where
  | here (k : ByteCursor) : Wades k k
  | on {k k' : ByteCursor} {b : Char} (hpeek : k.peek? = some b) (hb : b.utf8Size ≠ 1)
    (h : Wades k.consumeByte k') : Wades k k'

/-- What a byte cursor meets where the character `d` stands, with the cursor `c` behind it: its one
byte, or a longer character that it wades through. -/
inductive Meets (text : String) (k : ByteCursor) (d : Char) (c : Cursor) : Prop where
  | byte (hd : d.utf8Size = 1) (hpeek : k.peek? = some d) (hnext : k.consumeByte.At text c)
  | wide (b : Char) (k' : ByteCursor) (hd : d.utf8Size ≠ 1) (hpeek : k.peek? = some b)
    (hb : b.utf8Size ≠ 1) (hwades : Wades k.consumeByte k') (hnext : k'.At text c)

variable {text : String} {c : Cursor} {d : Char} {cs : List Char}

/-- What does not change past any byte of a longer character does not change past all of them. -/
theorem Wades.eq {α : Type} {f : ByteCursor → α} (h : Wades k k')
    (hf : ∀ k b, k.peek? = some b → b.utf8Size ≠ 1 → f k = f k.consumeByte) : f k = f k' := by
  induction h with
  | here => rfl
  | on hpeek hb _ ih => exact (hf _ _ hpeek hb).trans ih

/-- Bytes of longer characters are gone past on the line. -/
theorem wades_of_left {bs rest : List UInt8} (hleft : k.left = bs ++ rest) (hne : bs ≠ [])
    (hbs : ∀ b ∈ bs, (Char.ofUInt8 b).utf8Size ≠ 1) : ∃ b, k.peek? = some b ∧ b.utf8Size ≠ 1 ∧
      Wades k.consumeByte { k with offset := k.offset + bs.length, afterReturn := false } := by
  induction bs generalizing k with
  | nil => exact absurd rfl hne
  | cons b bs ih =>
    have hb := hbs b List.mem_cons_self
    have hpeek : k.peek? = some (Char.ofUInt8 b) := by
      rw [peek?, nth?, hleft]
      rfl
    have hconsume : k.consumeByte = { k with offset := k.offset + 1, afterReturn := false } := by
      unfold consumeByte
      rw [hpeek]
      dsimp only
      rw [if_neg (Lexical.ne_of_wide hb rfl), if_neg (Lexical.ne_of_wide hb rfl)]
    refine ⟨_, hpeek, hb, ?_⟩
    by_cases hnil : bs = []
    · subst hnil
      rw [hconsume]
      exact .here _
    · have hrest : k.consumeByte.left = bs ++ rest := by rw [left_consumeByte, hleft]; rfl
      obtain ⟨b', hpeek', hb', hwades⟩ :=
        ih hrest hnil fun b hb => hbs b (List.mem_cons_of_mem _ hb)
      have hend : { k with offset := k.offset + (b :: bs).length, afterReturn := false } =
          { k.consumeByte with
            offset := k.consumeByte.offset + bs.length, afterReturn := false } := by
        rw [hconsume, List.length_cons]
        dsimp only
        rw [Nat.add_assoc, Nat.add_comm 1]
      rw [hend]
      exact .on hpeek' hb' hwades

namespace At

theorem offset_eq (h : k.At text c) : k.offset = c.position.byteOffset :=
  congrArg Position.byteOffset h.position_eq

theorem left_eq (h : k.At text c) : k.left = Text.bytes c.rest := by
  obtain ⟨before, hsource, hbefore⟩ := h.reaches
  rw [left, h.source_eq, hsource, h.offset_eq, hbefore, ← Text.length_bytes, Text.bytes_append]
  exact List.drop_left

theorem ofText (text : String) : (ByteCursor.ofText text).At text (.ofText text) :=
  ⟨rfl, Cursor.reaches_ofText text, rfl, Nat.le_refl 0, .zero text, rfl⟩

theorem reaches_step (h : k.At text c) (hrest : c.rest = d :: cs) : (c.step d).Reaches text := by
  have htaken : [d] <+: c.rest := ⟨cs, hrest.symm⟩
  exact h.reaches.consume htaken

/-- Where the next character is on the line, its bytes shift the position. -/
theorem shiftRight (h : k.At text c) (hrest : c.rest = d :: cs) (hfeed : d ≠ '\n')
    (hreturn : d ≠ '\r') :
    At text { k with offset := k.offset + d.utf8Size, afterReturn := false } (c.step d) := by
  have hstep : c.step d = ⟨c.rest.tail, c.position.shiftRight d.utf8Size, false⟩ :=
    (if_neg hfeed).trans (if_neg hreturn)
  have hreaches := h.reaches_step hrest
  have hle := h.lineStart_le
  rw [hstep] at hreaches ⊢
  refine ⟨h.source_eq, hreaches, ?_, Nat.le_add_right_of_le hle, h.lineStart_at, rfl⟩
  rw [← h.position_eq]
  simp only [position, Position.shiftRight, Position.mk.injEq, true_and, and_true]
  omega

/-- A line starts behind what ends the one before it. -/
theorem newLine (h : k.At text c) (hrest : c.rest = d :: cs) (hd : d.utf8Size = 1) {line : Nat}
    {afterReturn : Bool}
    (hstep : c.step d = ⟨c.rest.tail, ⟨line, 1, c.position.byteOffset + 1⟩, afterReturn⟩) :
    At text { k with offset := k.offset + 1, line, lineStart := k.offset + 1, afterReturn }
      (c.step d) := by
  have hreaches := h.reaches_step hrest
  have hoffset := h.offset_eq
  have hbehind := Text.IsBoundary.of_reaches hreaches
  rw [Cursor.byteOffset_step, hd, ← hoffset] at hbehind
  rw [hstep] at hreaches ⊢
  refine ⟨h.source_eq, hreaches, ?_, Nat.le_refl _, hbehind, rfl⟩
  simp [position, hoffset]

/-- A character of one byte is gone past with it. -/
theorem consumeByte (h : k.At text c) (hrest : c.rest = d :: cs) (hd : d.utf8Size = 1)
    (hpeek : k.peek? = some d) : k.consumeByte.At text (c.step d) := by
  unfold ByteCursor.consumeByte
  rw [hpeek]
  dsimp only
  split
  · rename_i hfeed
    refine h.newLine hrest hd ?_
    rw [Cursor.step, if_pos hfeed, h.afterReturn_eq, ← h.position_eq]
    rfl
  · rename_i hfeed
    split
    · rename_i hreturn
      refine h.newLine hrest hd ?_
      rw [Cursor.step, if_neg hfeed, if_pos hreturn, ← h.position_eq]
      rfl
    · rename_i hreturn
      have := h.shiftRight hrest hfeed hreturn
      rwa [hd] at this

theorem peek?_eq_none (h : k.At text c) (hrest : c.rest = []) : k.peek? = none := by
  rw [peek?, nth?, h.left_eq, hrest]
  rfl

theorem meets (h : k.At text c) (hrest : c.rest = d :: cs) : k.Meets text d (c.step d) := by
  have hleft := h.left_eq
  rw [hrest, Text.bytes_cons] at hleft
  by_cases hd : d.utf8Size = 1
  · have hpeek : k.peek? = some d := by
      rw [String.utf8EncodeChar_eq_singleton hd] at hleft
      rw [peek?, nth?, hleft]
      exact congrArg some (Text.ofUInt8_toUInt8 hd)
    exact .byte hd hpeek (h.consumeByte hrest hd hpeek)
  · have hstop := h.shiftRight hrest (Lexical.ne_of_wide hd rfl) (Lexical.ne_of_wide hd rfl)
    obtain ⟨b, hpeek, hb, hwades⟩ := wades_of_left hleft String.utf8EncodeChar_ne_nil
      fun b hb => Text.utf8Size_ne_one_of_mem hd hb
    rw [String.length_utf8EncodeChar] at hwades
    exact .wide b _ hd hpeek hb hwades hstop

/-- A question about characters of one byte is answered by the next byte. -/
theorem exists_peek {p : Char → Bool} (h : k.At text c) (hp : Lexical.OneByte p)
    (hrest : c.rest = d :: cs) : ∃ b, k.peek? = some b ∧ p b = p d := by
  cases h.meets hrest with
  | byte hd hpeek => exact ⟨d, hpeek, rfl⟩
  | wide b k' hd hpeek hb => exact ⟨b, hpeek, (hp.eq_false hb).trans (hp.eq_false hd).symm⟩

theorem next_eq {p : Char → Bool} (h : k.At text c) (hp : Lexical.OneByte p) :
    k.next p = c.rest.head?.any p := by
  cases hrest : c.rest with
  | nil =>
    rw [next, h.peek?_eq_none hrest]
    rfl
  | cons d cs =>
    obtain ⟨b, hpeek, hb⟩ := h.exists_peek hp hrest
    rw [next, hpeek]
    exact hb

/-- A character of one byte is next among the bytes where it is next among the characters. -/
theorem peek_iff {e : Char} (h : k.At text c) (he : e.utf8Size = 1) :
    k.peek? = some e ↔ c.rest.head? = some e := by
  have hnext := h.next_eq (.char e he)
  unfold ByteCursor.next at hnext
  have hany (o : Option Char) : o.any (· == e) ↔ o = some e := by cases o <;> simp
  rw [← hany, ← hany, hnext]

/-- Where bytes of longer characters change nothing, what comes behind the next byte is what comes
behind the next character. -/
theorem exists_behind {α : Type} (f : ByteCursor → α) (h : k.At text c) (hrest : c.rest = d :: cs)
    (hf : ∀ k b, k.peek? = some b → b.utf8Size ≠ 1 → f k = f k.consumeByte) :
    ∃ b k', k.peek? = some b ∧ (∀ e : Char, e.utf8Size = 1 → (b = e ↔ d = e)) ∧
      k'.At text (c.step d) ∧ f k.consumeByte = f k' := by
  have hbyte {b : Char} (hpeek : k.peek? = some b) (e : Char) (he : e.utf8Size = 1) :
      b = e ↔ d = e := by
    have := h.peek_iff he
    rwa [hpeek, hrest, List.head?_cons, Option.some.injEq, Option.some.injEq] at this
  cases h.meets hrest with
  | byte _ hpeek hnext => exact ⟨d, _, hpeek, hbyte hpeek, hnext, rfl⟩
  | wide b k' _ hpeek _ hwades hnext => exact ⟨b, k', hpeek, hbyte hpeek, hnext, hwades.eq hf⟩

/-- A character of one byte is the next byte, and is gone past with it. -/
theorem byte (h : k.At text c) (hrest : c.rest = d :: cs) (hd : d.utf8Size = 1) :
    k.peek? = some d ∧ k.consumeByte.At text (c.step d) := by
  cases h.meets hrest with
  | byte _ hpeek hnext => exact ⟨hpeek, hnext⟩
  | wide _ _ hsize => exact absurd hd hsize

end At

/-! ## Loops -/

theorem consumeWhile_of_peek {p : Char → Bool} (hpeek : k.peek? = some b) (hp : p b) :
    k.consumeWhile p = k.consumeByte.consumeWhile p := by
  rw [consumeWhile]
  split
  · simp_all
  · simp_all

theorem consumeWhile_of_not {p : Char → Bool} (h : ∀ b, k.peek? = some b → p b = false) :
    k.consumeWhile p = k := by
  rw [consumeWhile]
  split
  · rfl
  · rename_i hpeek
    simp [h _ hpeek]

/-- Characters of one byte are gone past like the bytes they are. -/
theorem At.consumeWhile {p : Char → Bool} (h : k.At text c) (hp : Lexical.OneByte p) :
    (k.consumeWhile p).At text (c.consume (c.rest.takeWhile p)) := by
  induction hcs : c.rest generalizing k c with
  | nil =>
    rw [consumeWhile_of_not (by simp [h.peek?_eq_none hcs])]
    exact h
  | cons d cs ih =>
    obtain ⟨b, hpeek, hb⟩ := h.exists_peek hp hcs
    by_cases hd : p d
    · obtain ⟨hpeek, hnext⟩ := h.byte hcs (hp d hd)
      rw [consumeWhile_of_peek hpeek hd, List.takeWhile_cons_of_pos hd, Cursor.consume_cons]
      exact ih hnext (Cursor.rest_step_of_cons hcs)
    · rw [consumeWhile_of_not (by simp [hpeek, hb, hd]), List.takeWhile_cons_of_neg hd]
      exact h

theorem skipIgnorables_of_ignorable (hpeek : k.peek? = some b) (hb : Lexical.isIgnorable b) :
    k.skipIgnorables = k.consumeByte.skipIgnorables := by
  rw [skipIgnorables]
  split
  · simp_all
  · simp_all

theorem skipIgnorables_of_mark (hpeek : k.peek? = some b) (hb : Lexical.isIgnorable b = false)
    (hmark : (String.utf8EncodeChar Lexical.byteOrderMark).isPrefixOf k.left) :
    k.skipIgnorables = k.skipMark.skipIgnorables := by
  rw [skipIgnorables]
  split
  · simp_all
  · simp_all

theorem skipIgnorables_of_not (h : ∀ b, k.peek? = some b → Lexical.isIgnorable b = false)
    (hmark : (String.utf8EncodeChar Lexical.byteOrderMark).isPrefixOf k.left = false) :
    k.skipIgnorables = k := by
  rw [skipIgnorables]
  split
  · rfl
  · rename_i hpeek
    simp [h _ hpeek, hmark]

/-- The bytes of the byte order mark stand where the character does. -/
theorem At.mark_iff (h : k.At text c) :
    (String.utf8EncodeChar Lexical.byteOrderMark).isPrefixOf k.left ↔
      c.rest.head? = some Lexical.byteOrderMark := by
  rw [List.isPrefixOf_iff_prefix, h.left_eq]
  constructor
  · rintro ⟨bs, hbs⟩
    cases hrest : c.rest with
    | nil => simp [hrest] at hbs
    | cons d cs =>
      rw [hrest, Text.bytes_cons] at hbs
      rw [Text.eq_of_utf8EncodeChar_append hbs]
      rfl
  · intro hhead
    obtain ⟨cs, hrest⟩ := List.head?_eq_some_iff.mp hhead
    exact ⟨Text.bytes cs, by rw [hrest, Text.bytes_cons]⟩

/-- A byte order mark shifts the start of the line along, or else the position. -/
theorem At.skipMark (h : k.At text c) (hrest : c.rest = Lexical.byteOrderMark :: cs) :
    k.skipMark.At text (c.skip Lexical.byteOrderMark) := by
  have hcolumn : c.position.column = 1 ↔ k.offset = k.lineStart := by
    have hle := h.lineStart_le
    rw [← h.position_eq]
    dsimp only [position]
    omega
  unfold ByteCursor.skipMark Cursor.skip
  dsimp only
  by_cases hstart : k.offset = k.lineStart
  · rw [if_pos hstart, if_pos ⟨rfl, hcolumn.mpr hstart⟩]
    have hreaches := h.reaches_step hrest
    have hbehind := Text.IsBoundary.of_reaches hreaches
    rw [Cursor.byteOffset_step, ← h.offset_eq] at hbehind
    obtain ⟨before, hsource, hbefore⟩ := hreaches
    rw [Cursor.byteOffset_step] at hbefore
    refine ⟨h.source_eq, ⟨before, by rwa [Cursor.rest_step] at hsource, hbefore⟩, ?_,
      Nat.le_refl _, hbehind, rfl⟩
    rw [← h.position_eq]
    simp [position]
  · rw [if_neg hstart, if_neg fun hmark => hstart (hcolumn.mp hmark.2)]
    exact h.shiftRight hrest (by decide) (by decide)

/-- What may stand between lexemes is skipped alike. -/
theorem At.skipIgnorables (h : k.At text c) : k.skipIgnorables.At text c.skipGap := by
  induction hcs : c.rest generalizing k c with
  | nil =>
    rw [skipIgnorables_of_not (by simp [h.peek?_eq_none hcs]),
      Cursor.skipGap_of_head (by simp [hcs])]
    · exact h
    · exact Bool.eq_false_iff.mpr fun hmark => by simpa [hcs] using h.mark_iff.mp hmark
  | cons d cs ih =>
    have hskip {k' : ByteCursor} (hgap : Lexical.isGap d) (hnext : k'.At text (c.skip d)) :
        k'.skipIgnorables.At text c.skipGap := by
      rw [← Cursor.skipGap_skip hcs hgap]
      exact ih hnext (by rw [Cursor.rest_skip, hcs]; rfl)
    obtain ⟨b, hpeek, hb⟩ := h.exists_peek .isIgnorable hcs
    have hmark := h.mark_iff
    rw [hcs, List.head?_cons, Option.some.injEq] at hmark
    by_cases hignorable : Lexical.isIgnorable d
    · rw [skipIgnorables_of_ignorable hpeek (hb.trans hignorable)]
      refine hskip (Cursor.isGap_of_isIgnorable hignorable) ?_
      rw [Cursor.skip_ignorable hignorable]
      exact (h.byte hcs (Lexical.OneByte.isIgnorable d hignorable)).2
    rw [Bool.not_eq_true] at hignorable
    by_cases hd : d = Lexical.byteOrderMark
    · rw [skipIgnorables_of_mark hpeek (hb.trans hignorable) (hmark.mpr hd)]
      subst hd
      exact hskip (by decide) (h.skipMark hcs)
    · rw [skipIgnorables_of_not (by simp [hpeek, hb, hignorable])
        (Bool.eq_false_iff.mpr fun hprefix => hd (hmark.mp hprefix)), Cursor.skipGap_of_head]
      · exact h
      · rw [hcs]
        rintro e ⟨⟩
        simp [Lexical.isGap, hignorable, hd]

end ByteCursor

end GraphQLSyntax
