import GraphQLSyntax.Lexical.Number
import GraphQLSyntax.Proofs.Bytewise.Cursor

/-!
# Numbers that are scanned byte by byte

* `ByteCursor.scanNumber`: the number that starts at the next byte.
* `ByteCursor.Reads`: bytes are read like characters, so up to a place between two characters.
* `ByteCursor.At.scanNumber`: numbers are.
-/

namespace GraphQLSyntax

namespace ByteCursor

variable {k : ByteCursor} {p : Char → Bool}

/-- The signs that the digits of an exponent may have. -/
def isSign (b : Char) : Bool := b == '+' || b == '-'

/-- The letters that an exponent starts with. -/
def isExponentMark (b : Char) : Bool := b == 'e' || b == 'E'

theorem isSign_oneByte : Lexical.OneByte isSign := .or (.char '+' rfl) (.char '-' rfl)

theorem isExponentMark_oneByte : Lexical.OneByte isExponentMark :=
  .or (.char 'e' rfl) (.char 'E' rfl)

/-- The cursor past the next byte, if it is one that `p` asks for. -/
def consumeIf (p : Char → Bool) (k : ByteCursor) : ByteCursor :=
  if k.next p then k.consumeByte else k

/-- The digits that a fraction or an exponent must have. -/
def scanDigits (k : ByteCursor) : Lexeme × ByteCursor :=
  if k.next Char.isDigit then (.float, k.consumeWhile Char.isDigit) else (.unknown, k)

/-- The exponent that starts at the next byte. -/
def scanExponent (k : ByteCursor) : Lexeme × ByteCursor :=
  (k.consumeByte.consumeIf isSign).scanDigits

/-- The fraction that starts at the next byte, with the exponent that it may have behind it. -/
def scanFraction (k : ByteCursor) : Lexeme × ByteCursor :=
  let (kind, k) := k.consumeByte.scanDigits
  if kind = .float ∧ k.next isExponentMark then k.scanExponent else (kind, k)

/-- What may stand behind the integer in a number. -/
def scanNumberEnd (k : ByteCursor) : Lexeme × ByteCursor :=
  if k.next (· == '.') then k.scanFraction
  else if k.next isExponentMark then k.scanExponent
  else (.int, k)

/-- The number that starts at the next byte, without its sign. -/
def scanUnsigned (k : ByteCursor) : Lexeme × ByteCursor :=
  if k.next (· == '0') then
    if k.consumeByte.next Char.isDigit then (.unknown, k.consumeByte)
    else k.consumeByte.scanNumberEnd
  else if k.next Char.isDigit then (k.consumeWhile Char.isDigit).scanNumberEnd
  else (.unknown, k)

/-- The number that starts at the next byte. -/
def scanNumber (k : ByteCursor) : Lexeme × ByteCursor := (k.consumeIf (· == '-')).scanUnsigned

/-! ## Read like characters -/

/-- Bytes are read as the same kind as characters, and what is left of both starts alike. -/
def Reads (text : String) (c : Cursor) (x : Lexeme × ByteCursor) (y : Lexeme × List Char) : Prop :=
  x.1 = y.1 ∧ x.2.At text (c.consume y.2)

variable {text : String} {c : Cursor} {d : Char} {cs taken : List Char} {kind : Lexeme}
  {x : Lexeme × ByteCursor} {y : Lexeme × List Char}

theorem Reads.here (kind : Lexeme) (h : k.At text c) : Reads text c (kind, k) (kind, []) := ⟨rfl, h⟩

theorem Reads.after (taken : List Char) (h : Reads text (c.consume taken) x y) :
    Reads text c x (Lexical.Taken.after taken y) := by
  refine ⟨h.1, ?_⟩
  rw [Lexical.Taken.after, Cursor.consume_append]
  exact h.2

namespace At

theorem consumeIf_of (h : k.At text c) (hp : Lexical.OneByte p) (hrest : c.rest = d :: cs)
    (hd : p d) : (k.consumeIf p).At text (c.step d) := by
  have hnext : k.next p := by
    rw [h.next_eq hp, hrest]
    exact hd
  rw [consumeIf, if_pos hnext]
  exact (h.byte hrest (hp d hd)).2

theorem consumeIf_of_not (h : k.At text c) (hp : Lexical.OneByte p)
    (hd : c.rest.head?.any p = false) : (k.consumeIf p).At text c := by
  rw [consumeIf, h.next_eq hp, hd]
  exact h

theorem scanDigits (h : k.At text c) : Reads text c k.scanDigits (Lexical.someDigits c.rest) := by
  have hbehind := h.consumeWhile .isDigit
  unfold ByteCursor.scanDigits Lexical.someDigits Lexical.digits
  rw [h.next_eq .isDigit]
  cases hrest : c.rest with
  | nil => exact .here _ h
  | cons d cs =>
    by_cases hd : d.isDigit
    · rw [hrest, List.takeWhile_cons_of_pos hd] at hbehind
      rw [List.takeWhile_cons_of_pos hd, if_neg (List.cons_ne_nil _ _)]
      rw [if_pos (show (d :: cs).head?.any Char.isDigit from hd)]
      exact ⟨rfl, hbehind⟩
    · rw [List.takeWhile_cons_of_neg hd, if_pos rfl]
      rw [if_neg (show ¬(d :: cs).head?.any Char.isDigit from hd)]
      exact .here _ h

theorem scanExponent (h : k.At text c) (hrest : c.rest = d :: cs) (hd : isExponentMark d) :
    Reads text c k.scanExponent (Lexical.Taken.after [d] (Lexical.exponent cs)) := by
  have hnext := (h.byte hrest (isExponentMark_oneByte d hd)).2
  have htail := Cursor.rest_step_of_cons hrest
  refine .after _ ?_
  show Reads text (c.step d) (k.consumeByte.consumeIf isSign).scanDigits _
  unfold Lexical.exponent
  split
  · have hstop := (hnext.consumeIf_of_not isSign_oneByte (by rw [htail]; rfl)).scanDigits
    rwa [htail] at hstop
  · rename_i e es
    split
    · rename_i he
      have hsign := hnext.consumeIf_of isSign_oneByte htail (by simpa [isSign] using he)
      have hstop := hsign.scanDigits
      rw [Cursor.rest_step_of_cons htail] at hstop
      exact .after [e] hstop
    · rename_i he
      have hstop :=
        (hnext.consumeIf_of_not isSign_oneByte (by rw [htail]; simpa [isSign] using he)).scanDigits
      rwa [htail] at hstop

/-- The exponent that a fraction may have behind it. -/
theorem scanFractionEnd (h : k.At text c) :
    Reads text c (if k.next isExponentMark then k.scanExponent else (.float, k))
      (Lexical.afterFraction c.rest) := by
  rw [h.next_eq isExponentMark_oneByte]
  cases hrest : c.rest with
  | nil => exact .here _ h
  | cons d cs =>
    have hmark : (d :: cs).head?.any isExponentMark ↔ d = 'e' ∨ d = 'E' := by simp [isExponentMark]
    by_cases hd : d = 'e' ∨ d = 'E'
    · rw [if_pos (hmark.mpr hd), Lexical.afterFraction, if_pos hd]
      exact h.scanExponent hrest (hmark.mpr hd)
    · rw [if_neg (mt hmark.mp hd), Lexical.afterFraction, if_neg hd]
      exact .here _ h

theorem scanFraction (h : k.At text c) (hrest : c.rest = '.' :: cs) :
    Reads text c k.scanFraction (Lexical.Taken.after ['.'] (Lexical.fraction cs)) := by
  have hnext := (h.byte hrest rfl).2
  have htail := Cursor.rest_step_of_cons hrest
  have hdigits := hnext.scanDigits
  rw [htail, Lexical.someDigits] at hdigits
  refine .after _ ?_
  show Reads text (c.step '.') _ _
  unfold ByteCursor.scanFraction Lexical.fraction
  dsimp only
  split at hdigits
  · rename_i hnone
    have hkind : k.consumeByte.scanDigits.1 = .unknown := hdigits.1
    rw [if_pos hnone, if_neg (by simp [hkind])]
    exact hdigits
  · rename_i hsome
    have hkind : k.consumeByte.scanDigits.1 = .float := hdigits.1
    have hend := scanFractionEnd hdigits.2
    rw [Cursor.rest_consume_of_append (htail.trans (Lexical.digits_append_afterDigits cs).symm)]
      at hend
    simp only [if_neg hsome, hkind, true_and]
    exact .after _ hend

theorem scanNumberEnd (h : k.At text c) :
    Reads text c k.scanNumberEnd (Lexical.afterInteger c.rest) := by
  unfold ByteCursor.scanNumberEnd
  rw [h.next_eq isExponentMark_oneByte, h.next_eq (.char '.' rfl)]
  cases hrest : c.rest with
  | nil => exact .here _ h
  | cons d cs =>
    have hpoint : (d :: cs).head?.any (· == '.') ↔ d = '.' := by simp
    have hmark : (d :: cs).head?.any isExponentMark ↔ d = 'e' ∨ d = 'E' := by simp [isExponentMark]
    rw [Lexical.afterInteger]
    by_cases hd : d = '.'
    · rw [if_pos (hpoint.mpr hd), if_pos hd]
      subst hd
      exact h.scanFraction hrest
    rw [if_neg (mt hpoint.mp hd), if_neg hd]
    by_cases hd : d = 'e' ∨ d = 'E'
    · rw [if_pos (hmark.mpr hd), if_pos hd]
      exact h.scanExponent hrest (hmark.mpr hd)
    · rw [if_neg (mt hmark.mp hd), if_neg hd]
      exact .here _ h

/-- Digits behind a leading zero break the number off. -/
theorem scanZero (h : k.At text c) (hrest : c.rest = '0' :: cs) :
    Reads text c (if k.consumeByte.next Char.isDigit then (.unknown, k.consumeByte)
      else k.consumeByte.scanNumberEnd) (Lexical.unsigned ('0' :: cs)) := by
  have hnext := (h.byte hrest rfl).2
  have htail := Cursor.rest_step_of_cons hrest
  have hdigits : Lexical.digits ('0' :: cs) = '0' :: Lexical.digits cs := rfl
  have hafter : Lexical.afterDigits ('0' :: cs) = Lexical.afterDigits cs := rfl
  rw [hnext.next_eq .isDigit, htail, Lexical.unsigned, hdigits, hafter]
  by_cases hd : cs.head?.any Char.isDigit
  · obtain ⟨d, hhead, hdigit⟩ := (Option.any_eq_true _ _).mp hd
    obtain ⟨ds, rfl⟩ := List.head?_eq_some_iff.mp hhead
    rw [if_pos hd, Lexical.digits, List.takeWhile_cons_of_pos hdigit]
    exact ⟨rfl, hnext⟩
  · have hnone : Lexical.digits cs = [] ∧ Lexical.afterDigits cs = cs := by
      cases cs with
      | nil => exact ⟨rfl, rfl⟩
      | cons d ds => exact ⟨List.takeWhile_cons_of_neg hd, List.dropWhile_cons_of_neg hd⟩
    rw [if_neg hd, hnone.1, hnone.2]
    have hend := hnext.scanNumberEnd
    rw [htail] at hend
    exact .after ['0'] hend

theorem scanUnsigned (h : k.At text c) : Reads text c k.scanUnsigned (Lexical.unsigned c.rest) := by
  unfold ByteCursor.scanUnsigned
  rw [h.next_eq .isDigit, h.next_eq (.char '0' rfl)]
  cases hrest : c.rest with
  | nil => exact .here _ h
  | cons d cs =>
    have hzero : (d :: cs).head?.any (· == '0') ↔ d = '0' := by simp
    by_cases hd : d = '0'
    · subst hd
      exact h.scanZero hrest
    rw [if_neg (mt hzero.mp hd), ← hrest, Lexical.unsigned]
    have hdigits : (k.consumeWhile Char.isDigit).At text (c.consume (Lexical.digits c.rest)) :=
      h.consumeWhile .isDigit
    by_cases hdigit : d.isDigit
    · have hend := hdigits.scanNumberEnd
      rw [Cursor.rest_consume_of_append (Lexical.digits_append_afterDigits c.rest).symm] at hend
      rw [if_pos (by rw [hrest]; exact hdigit)]
      split
      · rename_i hnone
        rw [Lexical.digits, hrest, List.takeWhile_cons_of_pos hdigit] at hnone
        cases hnone
      · rename_i hnone
        rw [Lexical.digits, hrest, List.takeWhile_cons_of_pos hdigit] at hnone
        exact absurd (List.cons.inj hnone).1 hd
      · exact .after _ hend
    · rw [if_neg (by rw [hrest]; exact hdigit), Lexical.digits, hrest,
        List.takeWhile_cons_of_neg hdigit]
      exact .here _ h

theorem scanNumber (h : k.At text c) : Reads text c k.scanNumber (Lexical.number c.rest) := by
  have hminus : Lexical.OneByte (· == '-') := .char '-' rfl
  unfold ByteCursor.scanNumber Lexical.number
  split
  · rename_i cs hrest
    have hdigits := (h.consumeIf_of hminus hrest rfl).scanUnsigned
    rw [Cursor.rest_step_of_cons hrest] at hdigits
    exact .after ['-'] hdigits
  · rename_i hrest
    refine (h.consumeIf_of_not hminus ?_).scanUnsigned
    cases hcs : c.rest with
    | nil => rfl
    | cons d cs =>
      refine beq_eq_false_iff_ne.mpr ?_
      rintro rfl
      exact hrest cs hcs

end At

end ByteCursor

end GraphQLSyntax
