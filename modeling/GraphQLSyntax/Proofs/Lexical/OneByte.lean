import GraphQLSyntax.Lexical.Classify

/-!
# Characters of one byte

All that a lexeme is told from by a single character takes one byte.

* `OneByte`: what is asked for are characters of one byte.
* `classify_of_wide`: no longer character starts a lexeme.
* `OneByte.isIgnorable`, `OneByte.isDigit`, `OneByte.isNamePart`, `OneByte.isNameStart`,
  `OneByte.isLineBreak`: such questions.
-/

namespace GraphQLSyntax.Lexical

variable {p q : Char → Bool} {c : Char}

theorem ne_of_wide {d : Char} (h : c.utf8Size ≠ 1) (hd : d.utf8Size = 1) : c ≠ d := by
  rintro rfl
  exact h hd

/-- Only characters of one byte are asked for. -/
def OneByte (p : Char → Bool) : Prop := ∀ c, p c → c.utf8Size = 1

namespace OneByte

theorem eq_false (hp : OneByte p) (h : c.utf8Size ≠ 1) : p c = false :=
  Bool.eq_false_iff.mpr fun hc => h (hp c hc)

theorem of_le (h : ∀ c, p c → c.val ≤ 127) : OneByte p :=
  fun c hc => Char.utf8Size_eq_one_iff.mpr (h c hc)

theorem char (d : Char) (hd : d.utf8Size = 1) : OneByte (· == d) := by
  intro c hc
  rw [beq_iff_eq.mp hc, hd]

theorem or (hp : OneByte p) (hq : OneByte q) : OneByte fun c => p c || q c :=
  fun c hc => (Bool.or_eq_true_iff.mp hc).elim (hp c) (hq c)

theorem isIgnorable : OneByte isIgnorable := by
  refine .of_le fun c hc => ?_
  simp only [Lexical.isIgnorable, Bool.or_eq_true, beq_iff_eq] at hc
  rcases hc with (((((rfl | rfl) | rfl) | rfl) | rfl) | rfl) | rfl <;> decide

theorem isDigit : OneByte Char.isDigit := by
  refine .of_le fun c hc => ?_
  have hle : c.val ≤ '9'.val := of_decide_eq_true (Bool.and_eq_true_iff.mp hc).2
  exact UInt32.le_trans hle (by decide)

theorem isAlpha : OneByte Char.isAlpha := by
  refine .of_le fun c hc => ?_
  rcases Bool.or_eq_true_iff.mp hc with hupper | hlower
  · have hle : c.val ≤ 'Z'.val := (of_decide_eq_true hupper).2
    exact UInt32.le_trans hle (by decide)
  · have hle : c.val ≤ 'z'.val := of_decide_eq_true (Bool.and_eq_true_iff.mp hlower).2
    exact UInt32.le_trans hle (by decide)

theorem isNameStart : OneByte isNameStart := isAlpha.or (.char '_' rfl)

theorem isNamePart : OneByte isNamePart := (isAlpha.or isDigit).or (.char '_' rfl)

theorem isLineBreak : OneByte Text.isLineBreak := .or (.char '\n' rfl) (.char '\r' rfl)

end OneByte

/-- The lexemes of one character take one byte. -/
theorem utf8Size_of_single? {kind : Lexeme} (h : single? c = some kind) : c.utf8Size = 1 := by
  unfold single? at h
  split at h <;> first | rfl | cases h

/-- No longer character starts a lexeme. -/
theorem startsNone_of_wide (h : c.utf8Size ≠ 1) : single? c = none ∧ c ≠ '#' ∧ c ≠ '"' ∧
    ¬(c = '-' ∨ c.isDigit) ∧ ¬isNameStart c := by
  refine ⟨?_, ne_of_wide h rfl, ne_of_wide h rfl, ?_, ?_⟩
  · refine Option.eq_none_iff_forall_ne_some.mpr fun kind hkind => ?_
    exact h (utf8Size_of_single? hkind)
  · rintro (hminus | hdigit)
    · exact ne_of_wide h rfl hminus
    · exact h (OneByte.isDigit c hdigit)
  · exact fun hname => h (OneByte.isNameStart c hname)

theorem classify_of_wide (h : c.utf8Size ≠ 1) (cs : List Char) :
    classify (c :: cs) = (.unknown, []) := by
  obtain ⟨hsingle, hcomment, hquote, hnumber, hname⟩ := startsNone_of_wide h
  unfold classify
  dsimp only
  rw [hsingle]
  dsimp only
  rw [if_neg hcomment, if_neg hquote, if_neg hnumber, if_neg hname]

end GraphQLSyntax.Lexical
