import GraphQLSyntax.Lexical.Classify
import GraphQLSyntax.Proofs.Bytewise.Quoted
import GraphQLSyntax.Proofs.Lexical.First

/-!
# Lexemes that are scanned byte by byte

* `ByteCursor.scanLexeme`: the lexeme that starts at the next byte.
* `ByteCursor.At.scanLexeme`: it is read like characters.
-/

namespace GraphQLSyntax

namespace ByteCursor

variable {k : ByteCursor}

/-- The name that starts at the next byte. -/
def scanName (k : ByteCursor) : Lexeme × ByteCursor :=
  (.name, k.consumeByte.consumeWhile Lexical.isNamePart)

/-- A comment up to the end of its line. There is no line end on the way, so the columns go on. -/
def scanComment (k : ByteCursor) : Lexeme × ByteCursor :=
  let k := k.consumeByte
  let length := k.left.findIdx fun b => Text.isLineBreak (Char.ofUInt8 b)
  (.comment, { k with offset := k.offset + length })

/-- The lexeme that starts at the next byte. A byte that starts none is left. -/
def scanLexeme (k : ByteCursor) : Lexeme × ByteCursor :=
  match k.peek? with
  | none => (.eof, k)
  | some b =>
    match Lexical.single? b with
    | some kind => (kind, k.consumeByte)
    | none =>
      if b = '#' then k.scanComment
      else if b = '"' then k.scanString true
      else if b = '-' ∨ b.isDigit then k.scanNumber
      else if Lexical.isNameStart b then k.scanName
      else (.unknown, k)

/-! ## Comments -/

theorem scanDigits_ne_comment (k : ByteCursor) : k.scanDigits.1 ≠ .comment := by
  unfold scanDigits
  split <;> simp

theorem scanFraction_ne_comment (k : ByteCursor) : k.scanFraction.1 ≠ .comment := by
  unfold scanFraction
  dsimp only
  split
  · exact scanDigits_ne_comment _
  · exact scanDigits_ne_comment _

theorem scanNumberEnd_ne_comment (k : ByteCursor) : k.scanNumberEnd.1 ≠ .comment := by
  unfold scanNumberEnd
  split
  · exact scanFraction_ne_comment k
  · split
    · exact scanDigits_ne_comment _
    · simp

theorem scanNumber_ne_comment (k : ByteCursor) : k.scanNumber.1 ≠ .comment := by
  unfold scanNumber scanUnsigned
  split
  · split
    · simp
    · exact scanNumberEnd_ne_comment _
  · split
    · exact scanNumberEnd_ne_comment _
    · simp

theorem closeQuotes_ne_comment {n seen : Nat} {kind : Lexeme} (hkind : kind ≠ .comment)
    (k : ByteCursor) : (closeQuotes n seen kind k).1 ≠ .comment := by
  fun_induction closeQuotes n seen kind k with
  | case1 => exact hkind
  | case2 => simp
  | case3 _ _ _ _ _ ih => exact ih
  | case4 => simp
  | case5 _ _ _ _ _ _ _ _ ih => exact ih
  | case6 _ _ _ _ _ _ _ _ ih => exact ih

theorem scanString_ne_comment (allowBlock : Bool) (k : ByteCursor) :
    (k.scanString allowBlock).1 ≠ .comment := by
  unfold scanString
  dsimp only
  split
  · exact closeQuotes_ne_comment (by simp) _
  · simp
  · simp
  · split
    · exact closeQuotes_ne_comment (by simp) _
    · simp
  · simp

theorem length_left_scanComment_lt {b : Char} (hpeek : k.peek? = some b) :
    k.scanComment.2.left.length < k.left.length := by
  refine Nat.lt_of_le_of_lt ?_ (length_left_consumeByte_lt hpeek)
  unfold scanComment left
  dsimp only
  rw [List.length_drop, List.length_drop]
  omega

/-- Where the next lexeme is a comment, less is left behind it. -/
theorem length_left_scanLexeme_lt (h : k.scanLexeme.1 = .comment) :
    k.scanLexeme.2.left.length < k.left.length := by
  revert h
  unfold scanLexeme
  split
  · simp
  · rename_i b hpeek
    split
    · rename_i kind hsingle
      exact fun h => absurd h (Lexical.single?_kind hsingle).1
    · split
      · exact fun _ => length_left_scanComment_lt hpeek
      · split
        · exact fun h => absurd h (scanString_ne_comment true k)
        · split
          · exact fun h => absurd h (scanNumber_ne_comment k)
          · split <;> simp [scanName]

/-! ## Read like characters -/

variable {text : String} {c : Cursor} {d : Char} {cs : List Char}

namespace At

theorem scanName (h : k.At text c) (hrest : c.rest = d :: cs) (hd : Lexical.isNameStart d) :
    Reads text c k.scanName (.name, d :: cs.takeWhile Lexical.isNamePart) := by
  refine ⟨rfl, ?_⟩
  have hnext := (h.byte hrest (Lexical.OneByte.isNameStart d hd)).2
  have hbehind := hnext.consumeWhile .isNamePart
  rwa [Cursor.rest_step_of_cons hrest] at hbehind

/-- Characters on the line shift the cursor by their bytes. -/
theorem shiftWhile (taken : List Char) (h : k.At text c) (hreturn : k.afterReturn = false)
    (htaken : taken <+: c.rest) (hline : ∀ d ∈ taken, Text.isLineBreak d = false) :
    At text { k with offset := k.offset + Text.byteLength taken } (c.consume taken) := by
  induction taken generalizing k c with
  | nil => exact h
  | cons d ds ih =>
    obtain ⟨rest, hrest⟩ := htaken
    have hd := hline d List.mem_cons_self
    simp only [Text.isLineBreak, Bool.or_eq_false_iff, beq_eq_false_iff_ne] at hd
    have hnext := h.shiftRight hrest.symm hd.1 hd.2
    rw [Text.byteLength_cons, ← Nat.add_assoc]
    have hbehind := ih hnext rfl ⟨rest, (Cursor.rest_step_of_cons hrest.symm).symm⟩ fun e he =>
      hline e (List.mem_cons_of_mem _ he)
    rwa [← hreturn] at hbehind

end At

/-- Among the bytes of a text, a line ends where it does among the characters. -/
theorem findIdx_bytes (cs : List Char) :
    (Text.bytes cs).findIdx (fun b => Text.isLineBreak (Char.ofUInt8 b)) =
      Text.byteLength (cs.takeWhile fun d => !Text.isLineBreak d) := by
  induction cs with
  | nil => rfl
  | cons d cs ih =>
    rw [Text.bytes_cons]
    by_cases hd : Text.isLineBreak d
    · have hsize := Lexical.OneByte.isLineBreak d hd
      rw [String.utf8EncodeChar_eq_singleton hsize, List.takeWhile_cons_of_neg (by simp [hd]),
        List.singleton_append, List.findIdx_cons, Text.ofUInt8_toUInt8 hsize, hd]
      rfl
    · have hbytes : ∀ b ∈ String.utf8EncodeChar d, Text.isLineBreak (Char.ofUInt8 b) = false := by
        intro b hb
        by_cases hsize : d.utf8Size = 1
        · rw [String.utf8EncodeChar_eq_singleton hsize, List.mem_singleton] at hb
          rw [hb, Text.ofUInt8_toUInt8 hsize]
          exact Bool.eq_false_iff.mpr hd
        · exact Lexical.OneByte.isLineBreak.eq_false (Text.utf8Size_ne_one_of_mem hsize hb)
      have hnone := List.findIdx_eq_length_of_false hbytes
      rw [List.findIdx_append, hnone, if_neg (Nat.lt_irrefl _), ih,
        List.takeWhile_cons_of_pos (by simp [hd]), Text.byteLength_cons,
        String.length_utf8EncodeChar, Nat.add_comm]

namespace At

theorem scanComment (h : k.At text c) (hrest : c.rest = '#' :: cs) :
    Reads text c k.scanComment (.comment, '#' :: cs.takeWhile fun d => !Text.isLineBreak d) := by
  refine ⟨rfl, ?_⟩
  have hnext := (h.byte hrest rfl).2
  have htail := Cursor.rest_step_of_cons hrest
  have hbehind := hnext.shiftWhile (cs.takeWhile fun d => !Text.isLineBreak d) hnext.afterReturn_eq
    (by rw [htail]; exact List.takeWhile_prefix _)
    (fun d hd => by simpa using List.mem_takeWhile_imp hd)
  have hleft := hnext.left_eq
  rw [htail] at hleft
  unfold ByteCursor.scanComment
  dsimp only
  rw [hleft, findIdx_bytes]
  exact hbehind

/-- The next lexeme is read like its characters. -/
theorem scanLexeme (h : k.At text c) : Reads text c k.scanLexeme (Lexical.classify c.rest) := by
  unfold ByteCursor.scanLexeme
  cases hrest : c.rest with
  | nil =>
    rw [h.peek?_eq_none hrest]
    exact .here _ h
  | cons d cs =>
    cases h.meets hrest with
    | wide b k' hd hpeek hb =>
      obtain ⟨hsingle, hcomment, hquote, hnumber, hname⟩ := Lexical.startsNone_of_wide hb
      rw [Lexical.classify_of_wide hd, hpeek]
      dsimp only
      rw [hsingle]
      dsimp only
      rw [if_neg hcomment, if_neg hquote, if_neg hnumber, if_neg hname]
      exact .here _ h
    | byte hd hpeek hnext =>
      rw [hpeek, Lexical.classify]
      dsimp only
      cases Lexical.single? d with
      | some kind => exact ⟨rfl, hnext⟩
      | none =>
        dsimp only
        split
        · subst_vars
          exact h.scanComment hrest
        · split
          · rw [← hrest]
            exact h.scanString true
          · split
            · rw [← hrest]
              exact h.scanNumber
            · split
              · rename_i hname
                exact h.scanName hrest hname
              · exact .here _ h

/-- Three bytes tell whether there are exactly two more dots. -/
theorem dots_iff (h : k.At text c) :
    k.nth? 0 = some '.' ∧ k.nth? 1 = some '.' ∧ k.nth? 2 ≠ some '.' ↔
      ∃ rest, c.rest = '.' :: '.' :: rest ∧ rest.head? ≠ some '.' := by
  have hdot {k : ByteCursor} {c : Cursor} (h : k.At text c) :
      k.peek? = some '.' ↔ ∃ cs, c.rest = '.' :: cs := by
    rw [h.peek_iff rfl, List.head?_eq_some_iff]
  have hnext {k : ByteCursor} {c : Cursor} {cs : List Char} (h : k.At text c)
      (hrest : c.rest = '.' :: cs) : k.consumeByte.At text (c.step '.') ∧ (c.step '.').rest = cs :=
    ⟨(h.byte hrest rfl).2, Cursor.rest_step_of_cons hrest⟩
  rw [nth?_succ k 0, nth?_succ k 1, nth?_succ k.consumeByte 0]
  show k.peek? = _ ∧ k.consumeByte.peek? = _ ∧ k.consumeByte.consumeByte.peek? ≠ _ ↔ _
  constructor
  · rintro ⟨hfirst, hsecond, hthird⟩
    obtain ⟨cs, hcs⟩ := (hdot h).mp hfirst
    obtain ⟨hk, hrest⟩ := hnext h hcs
    obtain ⟨ds, hds⟩ := (hdot hk).mp hsecond
    obtain ⟨hk', hrest'⟩ := hnext hk hds
    refine ⟨ds, by rw [hcs, ← hrest, hds], fun hd => hthird ?_⟩
    rwa [hk'.peek_iff rfl, hrest']
  · rintro ⟨rest, hcs, hend⟩
    obtain ⟨hk, hrest⟩ := hnext h hcs
    obtain ⟨hk', hrest'⟩ := hnext hk hrest
    refine ⟨(hdot h).mpr ⟨_, hcs⟩, (hdot hk).mpr ⟨_, hrest⟩, fun hthird => hend ?_⟩
    rwa [hk'.peek_iff rfl, hrest'] at hthird

end At

end ByteCursor

end GraphQLSyntax
