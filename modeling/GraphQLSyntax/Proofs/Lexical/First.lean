import GraphQLSyntax.Lexical.Classify

/-!
# The first character of a lexeme

Which kind of lexeme a text starts with shows, mostly, in its first character.

* `classify_comment_iff`: a comment starts with `#`.
* `classify_name_iff`: a name starts with a letter or an underscore.
* `classify_single`: the lexemes of one character.
* `classify_gap`: what stands between lexemes starts none.
-/

namespace GraphQLSyntax

/-! ## Groups of kinds -/

namespace Lexeme

variable {kind : Lexeme}

theorem isControl_eq_false_iff : kind.isControl = false ↔ kind ≠ .eof ∧ kind ≠ .unknown := by
  cases kind <;> simp [isControl]

theorem isControl_of_isStructure (h : kind.isStructure) : kind.isControl = false := by
  cases kind <;> simp_all [isStructure, isControl]

theorem isStructure_of_punctuator {c : Char} (h : kind.punctuator? = some c) :
    kind.isStructure := by
  cases kind <;> simp_all [punctuator?, isStructure]

end Lexeme

namespace Lexical

/-! ## Lexemes of one character -/

theorem classify_single {c : Char} {kind : Lexeme} (h : single? c = some kind) (cs : List Char) :
    classify (c :: cs) = (kind, [c]) := by
  simp only [classify, h]

theorem single?_isNameStart {c : Char} (h : isNameStart c) : single? c = none := by
  unfold single?
  split <;> first | rfl | exact absurd h (by decide)

theorem isDigit_of_isNameStart {c : Char} (h : isNameStart c) : c.isDigit = false := by
  rw [Bool.eq_false_iff]
  intro hdigit
  have hle : c.val ≤ '9'.val := of_decide_eq_true (Bool.and_eq_true_iff.mp hdigit).2
  rcases Bool.or_eq_true_iff.mp h with halpha | hunderscore
  · rcases Bool.or_eq_true_iff.mp halpha with hupper | hlower
    · have hge : 'A'.val ≤ c.val := (of_decide_eq_true hupper).1
      exact absurd (UInt32.le_trans hge hle) (by decide)
    · have hge : 'a'.val ≤ c.val := of_decide_eq_true (Bool.and_eq_true_iff.mp hlower).1
      exact absurd (UInt32.le_trans hge hle) (by decide)
  · rw [beq_iff_eq] at hunderscore
    rw [hunderscore] at hle
    exact absurd hle (by decide)

theorem isNamePart_of_isNameStart {c : Char} (h : isNameStart c) : isNamePart c := by
  simp only [isNameStart, isNamePart, Char.isAlphanum, Bool.or_eq_true] at h ⊢
  exact h.imp_left .inl

/-- The kinds of one character are no comments, no names and no ends. -/
theorem single?_kind {c : Char} {kind : Lexeme} (h : single? c = some kind) :
    kind ≠ .comment ∧ kind ≠ .name ∧ kind.isControl = false := by
  unfold single? at h
  split at h <;> simp only [Option.some.injEq, reduceCtorEq] at h <;> subst h <;> decide

/-- A text starts with a comment where it starts with `#`. -/
theorem classify_comment_iff {cs : List Char} :
    (classify cs).1 = .comment ↔ cs.head? = some '#' := by
  cases cs with
  | nil => simp [classify]
  | cons c cs =>
    rw [List.head?_cons, Option.some.injEq]
    unfold classify
    dsimp only
    split
    · rename_i kind h
      refine iff_of_false (single?_kind h).1 ?_
      rintro rfl
      cases h
    · split
      · rename_i h
        simp [h]
      · rename_i hne
        refine iff_of_false ?_ hne
        split
        · rcases quoted_kind true (c :: cs) with h | h | h <;> simp [h]
        · split
          · rcases number_kind (c :: cs) with h | h | h <;> simp [h]
          · split <;> simp

theorem classify_name {c : Char} (h : isNameStart c) (cs : List Char) :
    classify (c :: cs) = (.name, c :: cs.takeWhile isNamePart) := by
  have hc : c ≠ '#' ∧ c ≠ '"' ∧ c ≠ '-' := by
    refine ⟨?_, ?_, ?_⟩ <;> rintro rfl <;> exact absurd h (by decide)
  unfold classify
  simp only [single?_isNameStart h, hc.1, hc.2.1, hc.2.2, isDigit_of_isNameStart h, h, ↓reduceIte,
    Bool.false_eq_true, or_self]

/-- A text starts with a name where it starts with a letter or an underscore. -/
theorem classify_name_iff {cs : List Char} :
    (classify cs).1 = .name ↔ ∃ c rest, cs = c :: rest ∧ isNameStart c := by
  constructor
  · intro hname
    cases cs with
    | nil => simp [classify] at hname
    | cons c cs =>
      refine ⟨c, cs, rfl, ?_⟩
      unfold classify at hname
      dsimp only at hname
      split at hname
      · rename_i kind h
        exact absurd hname (single?_kind h).2.1
      · split at hname
        · cases hname
        · split at hname
          · rcases quoted_kind true (c :: cs) with h | h | h <;> simp [h] at hname
          · split at hname
            · rcases number_kind (c :: cs) with h | h | h <;> simp [h] at hname
            · split at hname
              · assumption
              · cases hname
  · rintro ⟨c, rest, rfl, hc⟩
    rw [classify_name hc]

/-- The kinds of one character are found where that character stands. -/
theorem single?_of_classify {cs : List Char} {kind : Lexeme} (h : (classify cs).1 = kind)
    (hkind : kind.isStructure ∨ kind = .dollar ∨ kind = .atSign) :
    ∃ c rest, cs = c :: rest ∧ single? c = some kind := by
  have hnot (l : Lexeme) (hl : kind = l) : l.isStructure ∨ l = .dollar ∨ l = .atSign := hl ▸ hkind
  cases cs with
  | nil => exact absurd (hnot .eof h.symm) (by decide)
  | cons c cs =>
    refine ⟨c, cs, rfl, ?_⟩
    unfold classify at h
    dsimp only at h
    split at h
    · subst h
      assumption
    · exfalso
      split at h
      · exact absurd (hnot .comment h.symm) (by decide)
      · split at h
        · rcases quoted_kind true (c :: cs) with hq | hq | hq <;>
            exact absurd (hnot _ (h.symm.trans hq)) (by decide)
        · split at h
          · rcases number_kind (c :: cs) with hn | hn | hn <;>
              exact absurd (hnot _ (h.symm.trans hn)) (by decide)
          · split at h
            · exact absurd (hnot .name h.symm) (by decide)
            · exact absurd (hnot .unknown h.symm) (by decide)

/-- A punctuator is the only character of its kind. -/
theorem single?_eq_punctuator {c d : Char} {kind : Lexeme} (h : single? c = some kind)
    (hkind : kind.punctuator? = some d) : c = d := by
  unfold single? at h
  split at h <;> cases h <;> cases hkind <;> rfl

theorem single?_inj {c d : Char} {kind : Lexeme} (h : single? c = some kind)
    (h' : single? d = some kind) : c = d := by
  unfold single? at h h'
  split at h <;> cases h <;> split at h' <;> first | rfl | cases h'

/-- No lexeme is a keyword by itself. -/
theorem spelling?_classify (cs : List Char) : (classify cs).1.spelling? = none := by
  unfold classify
  split
  · rfl
  · rename_i c cs
    split
    · rename_i kind h
      unfold single? at h
      split at h <;> cases h <;> rfl
    · split
      · rfl
      · split
        · rcases quoted_kind true (c :: cs) with h | h | h <;> rw [h] <;> rfl
        · split
          · rcases number_kind (c :: cs) with h | h | h <;> rw [h] <;> rfl
          · split <;> rfl

theorem exists_eq_name {cs : List Char} (h : (classify cs).1 = .name) :
    ∃ name : String, classify cs = (.name, name.toList) := by
  refine ⟨String.ofList (classify cs).2, ?_⟩
  rw [String.toList_ofList, ← h]

/-- No lexeme starts with a character that stands between lexemes. -/
theorem classify_gap {c : Char} (h : isGap c) (cs : List Char) :
    classify (c :: cs) = (.unknown, []) := by
  simp only [isGap, isIgnorable, byteOrderMark, Bool.or_eq_true, beq_iff_eq] at h
  rcases h with ((((((rfl | rfl) | rfl) | rfl) | rfl) | rfl) | rfl) | rfl <;> rfl

end Lexical

end GraphQLSyntax
