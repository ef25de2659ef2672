import GraphQLSyntax.Proofs.Lexical.Lookahead
import GraphQLSyntax.Proofs.Scan.Trivia

/-!
# The grammar of numbers

A number is an integer, with a fraction, an exponent, or both behind it. It goes on for as long as
there are digits, and it ends in front of a text only where that text cannot be part of it.

* `IsInteger`, `IsExponent`, `Numeral`: the grammar, in front of what follows the number.
* `number_iff`: numbers are read by it.
* `number_of_unknown`, `StartsNumeral.isPrefix`: where there is no number, what is taken is the
  longest start of the text that is the start of some number.
* `Scanner.number_scanned`: the same of the next lexeme.
-/

namespace GraphQLSyntax

namespace Lexical

/-! ## Grammar -/

/-- One or more digits. -/
def IsDigits (cs : List Char) : Prop := cs ≠ [] ∧ ∀ c ∈ cs, c.isDigit

/-- An integer without a sign: a zero that stands alone, or digits that start with none. -/
inductive IsNatural : List Char → Prop where
  | zero : IsNatural ['0']
  | digits {ds : List Char} (h : IsDigits ds) (hzero : ds.head? ≠ some '0') : IsNatural ds

/-- An integer, `-?(0|[1-9][0-9]*)`. -/
inductive IsInteger : List Char → Prop where
  | plain {ds : List Char} (h : IsNatural ds) : IsInteger ds
  | negative {ds : List Char} (h : IsNatural ds) : IsInteger ('-' :: ds)

/-- Digits, maybe with a sign: what an exponent has behind its letter. -/
inductive IsScale : List Char → Prop where
  | plain {ds : List Char} (h : IsDigits ds) : IsScale ds
  | signed {sign : Char} {ds : List Char} (hsign : sign = '+' ∨ sign = '-') (h : IsDigits ds) :
    IsScale (sign :: ds)

/-- An exponent, `[eE][+-]?[0-9]+`. -/
inductive IsExponent : List Char → Prop where
  | mk {mark : Char} {scale : List Char} (hmark : mark = 'e' ∨ mark = 'E') (h : IsScale scale) :
    IsExponent (mark :: scale)

/-- No further digit stands in front of this text. -/
def EndsDigits (rest : List Char) : Prop := ∀ c ∈ rest.head?, c.isDigit = false

/-- No fraction goes on with this text. -/
def EndsFraction (rest : List Char) : Prop :=
  ∀ c ∈ rest.head?, c.isDigit = false ∧ c ≠ 'e' ∧ c ≠ 'E'

/-- In front of `rest`, a text is all that stands behind the integer in a number of the given
kind. -/
inductive NumeralEnd (rest : List Char) : Lexeme → List Char → Prop where
  | int (hrest : EndsNumber rest) : NumeralEnd rest .int []
  | fraction {ds : List Char} (hds : IsDigits ds) (hrest : EndsFraction rest) :
    NumeralEnd rest .float ('.' :: ds)
  | scaled {ds scale : List Char} (hds : IsDigits ds) (hscale : IsExponent scale)
    (hrest : EndsDigits rest) : NumeralEnd rest .float ('.' :: (ds ++ scale))
  | exponent {scale : List Char} (hscale : IsExponent scale) (hrest : EndsDigits rest) :
    NumeralEnd rest .float scale

/-- In front of `rest`, a text is a whole number of the given kind. -/
inductive Numeral (rest : List Char) : Lexeme → List Char → Prop where
  | mk {kind : Lexeme} {i tail : List Char} (hi : IsInteger i) (htail : NumeralEnd rest kind tail) :
    Numeral rest kind (i ++ tail)

/-- A text that some number starts with. -/
def StartsNumeral (cs : List Char) : Prop := ∃ kind more, Numeral [] kind (cs ++ more)

variable {cs ds rest taken : List Char} {kind : Lexeme}

/-! ## Where a text ends -/

theorem endsDigits_nil : EndsDigits [] := by
  rintro c ⟨⟩

theorem endsFraction_nil : EndsFraction [] := by
  rintro c ⟨⟩

theorem endsNumber_nil : EndsNumber [] := by
  rintro c ⟨⟩

/-! ## Runs of digits -/

/-- The digits that a text starts with, and what follows them. -/
theorem digits_eq_iff : digits cs = ds ↔
    (∀ c ∈ ds, c.isDigit) ∧ ∃ rest, cs = ds ++ rest ∧ EndsDigits rest := by
  constructor
  · rintro rfl
    have hsplit : digits (digits cs ++ afterDigits cs) = digits cs := by
      rw [digits_append_afterDigits]
    obtain ⟨hdigits, hrest⟩ := takeWhile_append_eq_left.mp hsplit
    exact ⟨hdigits, afterDigits cs, (digits_append_afterDigits cs).symm, hrest⟩
  · rintro ⟨hdigits, rest, rfl, hrest⟩
    exact takeWhile_append_eq_left.mpr ⟨hdigits, hrest⟩

theorem IsDigits.digits_append (h : IsDigits ds) (hrest : EndsDigits rest) :
    digits (ds ++ rest) = ds :=
  digits_eq_iff.mpr ⟨h.2, rest, rfl, hrest⟩

/-- What follows the digits that a text starts with is no further digit. -/
theorem endsDigits_afterDigits (cs : List Char) : EndsDigits (afterDigits cs) := by
  obtain ⟨-, rest, hcs, hrest⟩ := digits_eq_iff.mp (rfl : digits cs = digits cs)
  have hafter : afterDigits cs = rest :=
    List.append_cancel_left ((digits_append_afterDigits cs).trans hcs)
  rwa [hafter]

theorem isDigits_digits (h : digits cs ≠ []) : IsDigits (digits cs) :=
  ⟨h, (digits_eq_iff.mp rfl).1⟩

theorem IsExponent.endsDigits (h : IsExponent taken) (rest : List Char) :
    EndsDigits (taken ++ rest) := by
  obtain ⟨hmark, -⟩ := h
  rintro c ⟨⟩
  rcases hmark with rfl | rfl <;> rfl

theorem EndsFraction.endsDigits (h : EndsFraction rest) : EndsDigits rest :=
  fun c hc => (h c hc).1

theorem EndsNumber.endsDigits (h : EndsNumber rest) : EndsDigits rest := fun c hc => (h c hc).1

/-! ## Readers of the parts -/

theorem someDigits_iff :
    someDigits cs = (.float, taken) ↔ ∃ rest, cs = taken ++ rest ∧ IsDigits taken ∧
      EndsDigits rest := by
  unfold someDigits
  constructor
  · intro h
    split at h
    · cases h
    · rename_i hne
      obtain rfl := (Prod.mk.inj h).2
      exact ⟨_, (digits_append_afterDigits cs).symm, isDigits_digits hne,
        endsDigits_afterDigits cs⟩
  · rintro ⟨rest, rfl, htaken, hrest⟩
    rw [htaken.digits_append hrest, if_neg htaken.1]

theorem exponent_iff :
    exponent cs = (.float, taken) ↔ ∃ rest, cs = taken ++ rest ∧ IsScale taken ∧
      EndsDigits rest := by
  cases cs with
  | nil =>
    refine iff_of_false (by rintro ⟨⟩) ?_
    rintro ⟨rest, hcs, htaken, -⟩
    obtain ⟨rfl, -⟩ := List.append_eq_nil_iff.mp hcs.symm
    rcases htaken with h | _
    exact h.1 rfl
  | cons c cs =>
    rw [exponent]
    split
    · rename_i hsign
      rw [after_eq_iff]
      simp only [someDigits_iff]
      constructor
      · rintro ⟨tail, rfl, rest, rfl, htail, hrest⟩
        exact ⟨rest, rfl, .signed hsign htail, hrest⟩
      · rintro ⟨rest, hcs, htaken, hrest⟩
        cases htaken with
        | @signed sign ds _ hds =>
          obtain ⟨rfl, rfl⟩ := List.cons.inj hcs
          exact ⟨ds, rfl, rest, rfl, hds, hrest⟩
        | plain h =>
          obtain ⟨d, ds, rfl⟩ := List.exists_cons_of_ne_nil h.1
          obtain ⟨rfl, -⟩ := List.cons.inj hcs
          have hdigit := h.2 c List.mem_cons_self
          rcases hsign with rfl | rfl <;> cases hdigit
    · rename_i hsign
      rw [someDigits_iff]
      constructor
      · rintro ⟨rest, hcs, htaken, hrest⟩
        exact ⟨rest, hcs, .plain htaken, hrest⟩
      · rintro ⟨rest, hcs, htaken, hrest⟩
        cases htaken with
        | plain h => exact ⟨rest, hcs, h, hrest⟩
        | signed hsigned _ => exact absurd ((List.cons.inj hcs).1 ▸ hsigned) hsign

theorem afterFraction_iff :
    afterFraction cs = (.float, taken) ↔ ∃ rest, cs = taken ++ rest ∧
      (taken = [] ∧ (∀ c ∈ rest.head?, c ≠ 'e' ∧ c ≠ 'E') ∨
        IsExponent taken ∧ EndsDigits rest) := by
  cases cs with
  | nil =>
    constructor
    · rintro ⟨⟩
      exact ⟨[], rfl, .inl ⟨rfl, by rintro c ⟨⟩⟩⟩
    · rintro ⟨rest, hcs, -⟩
      obtain ⟨rfl, -⟩ := List.append_eq_nil_iff.mp hcs.symm
      rfl
  | cons c cs =>
    rw [afterFraction]
    split
    · rename_i hmark
      rw [after_eq_iff]
      simp only [exponent_iff]
      constructor
      · rintro ⟨tail, rfl, rest, rfl, htail, hrest⟩
        exact ⟨rest, rfl, .inr ⟨.mk hmark htail, hrest⟩⟩
      · rintro ⟨rest, hcs, ⟨rfl, hrest⟩ | ⟨@⟨mark, scale, _, hscale⟩, hrest⟩⟩
        · obtain rfl : rest = c :: cs := hcs.symm
          exact absurd hmark (not_or.mpr (hrest c rfl))
        · obtain ⟨rfl, rfl⟩ := List.cons.inj hcs
          exact ⟨scale, rfl, rest, rfl, hscale, hrest⟩
    · rename_i hmark
      constructor
      · rintro ⟨⟩
        refine ⟨c :: cs, rfl, .inl ⟨rfl, ?_⟩⟩
        rintro d ⟨⟩
        exact not_or.mp hmark
      · rintro ⟨rest, hcs, ⟨rfl, -⟩ | ⟨⟨hexp, -⟩, -⟩⟩
        · rfl
        · exact absurd ((List.cons.inj hcs).1 ▸ hexp) hmark

theorem fraction_iff :
    fraction cs = (.float, taken) ↔ ∃ rest, cs = taken ++ rest ∧
      (IsDigits taken ∧ EndsFraction rest ∨
        ∃ ds scale, taken = ds ++ scale ∧ IsDigits ds ∧ IsExponent scale ∧ EndsDigits rest) := by
  unfold fraction
  constructor
  · intro h
    split at h
    · cases h
    · rename_i hne
      obtain ⟨tail, rfl, htail⟩ := after_eq_iff.mp h
      obtain ⟨rest, hafter, htail⟩ := afterFraction_iff.mp htail
      have hcs := digits_append_afterDigits cs
      rw [hafter] at hcs
      have hends := endsDigits_afterDigits cs
      rw [hafter] at hends
      refine ⟨rest, by rw [List.append_assoc, hcs], ?_⟩
      rcases htail with ⟨rfl, hrest⟩ | ⟨hscale, hrest⟩
      · rw [List.append_nil]
        exact .inl ⟨isDigits_digits hne, fun c hc => ⟨hends c hc, hrest c hc⟩⟩
      · exact .inr ⟨_, tail, rfl, isDigits_digits hne, hscale, hrest⟩
  · rintro ⟨rest, rfl, ⟨htaken, hrest⟩ | ⟨ds, scale, rfl, hds, hscale, hrest⟩⟩
    · have hdigits := htaken.digits_append hrest.endsDigits
      rw [hdigits, if_neg htaken.1, afterDigits_of_digits hdigits, after_eq_iff]
      exact ⟨[], (List.append_nil _).symm,
        afterFraction_iff.mpr ⟨rest, rfl, .inl ⟨rfl, fun c hc => (hrest c hc).2⟩⟩⟩
    · rw [List.append_assoc]
      have hdigits := hds.digits_append (hscale.endsDigits rest)
      rw [hdigits, if_neg hds.1, afterDigits_of_digits hdigits, after_eq_iff]
      exact ⟨scale, rfl, afterFraction_iff.mpr ⟨rest, rfl, .inr ⟨hscale, hrest⟩⟩⟩

theorem NumeralEnd.endsDigits (h : NumeralEnd rest kind taken) : EndsDigits (taken ++ rest) := by
  cases h with
  | int hrest => exact hrest.endsDigits
  | fraction => rintro c ⟨⟩; rfl
  | scaled => rintro c ⟨⟩; rfl
  | exponent hscale => exact hscale.endsDigits rest

theorem NumeralEnd.ne_unknown (h : NumeralEnd rest kind taken) : kind ≠ .unknown := by
  cases h <;> decide

/-- The fraction or exponent that stands behind an integer. -/
theorem afterInteger_iff (hkind : kind ≠ .unknown) (hcs : EndsDigits cs) :
    afterInteger cs = (kind, taken) ↔ ∃ rest, cs = taken ++ rest ∧ NumeralEnd rest kind taken := by
  constructor
  · intro h
    cases cs with
    | nil =>
      obtain ⟨rfl, rfl⟩ := Prod.mk.inj h
      exact ⟨[], rfl, .int endsNumber_nil⟩
    | cons c cs =>
      rw [afterInteger] at h
      split at h
      · rename_i hpoint
        subst hpoint
        obtain ⟨tail, rfl, htail⟩ := after_eq_iff.mp h
        have hfloat := fraction_kind cs
        rw [htail] at hfloat
        obtain rfl := hfloat.resolve_left hkind
        obtain ⟨rest, rfl, ⟨hds, hrest⟩ | ⟨ds, scale, rfl, hds, hscale, hrest⟩⟩ :=
          fraction_iff.mp htail
        · exact ⟨rest, rfl, .fraction hds hrest⟩
        · have hend := NumeralEnd.scaled hds hscale hrest
          exact ⟨rest, rfl, hend⟩
      · rename_i hpoint
        split at h
        · rename_i hmark
          obtain ⟨tail, rfl, htail⟩ := after_eq_iff.mp h
          have hfloat := exponent_kind cs
          rw [htail] at hfloat
          obtain rfl := hfloat.resolve_left hkind
          obtain ⟨rest, rfl, hscale, hrest⟩ := exponent_iff.mp htail
          exact ⟨rest, rfl, .exponent (.mk hmark hscale) hrest⟩
        · rename_i hmark
          obtain ⟨rfl, rfl⟩ := Prod.mk.inj h
          refine ⟨c :: cs, rfl, .int ?_⟩
          rintro d ⟨⟩
          exact ⟨hcs c rfl, hpoint, not_or.mp hmark⟩
  · rintro ⟨rest, rfl, h⟩
    cases h with
    | int hrest =>
      have hstop : afterInteger ([] ++ rest) = afterInteger [] :=
        afterInteger_append hrest (by decide)
      exact hstop
    | fraction hds hrest =>
      have hfraction := fraction_iff.mpr ⟨rest, rfl, .inl ⟨hds, hrest⟩⟩
      rw [List.cons_append, afterInteger, if_pos rfl, hfraction]
      rfl
    | scaled hds hscale hrest =>
      have hfraction := fraction_iff.mpr ⟨rest, rfl, .inr ⟨_, _, rfl, hds, hscale, hrest⟩⟩
      rw [List.cons_append, afterInteger, if_pos rfl, hfraction]
      rfl
    | exponent hscale hrest =>
      obtain @⟨mark, scale, hmark, hscale⟩ := hscale
      have hexponent := exponent_iff.mpr ⟨rest, rfl, hscale, hrest⟩
      have hpoint : mark ≠ '.' := by rcases hmark with rfl | rfl <;> decide
      rw [List.cons_append, afterInteger, if_neg hpoint, if_pos hmark, hexponent]
      rfl

/-! ## Numbers -/

theorem IsNatural.isDigits (h : IsNatural ds) : IsDigits ds := by
  cases h with
  | zero => exact ⟨List.cons_ne_nil _ _, List.all_eq_true.mp rfl⟩
  | digits h => exact h

/-- Digits are an integer, unless they go on behind a leading zero. -/
theorem isNatural_or (h : IsDigits ds) : IsNatural ds ∨ ∃ d more, ds = '0' :: d :: more := by
  obtain ⟨c, ds, rfl⟩ := List.exists_cons_of_ne_nil h.1
  by_cases hzero : c = '0'
  · subst hzero
    cases ds with
    | nil => exact .inl .zero
    | cons d more => exact .inr ⟨d, more, rfl⟩
  · exact .inl (.digits h fun heq => hzero (Option.some.inj heq))

theorem unsigned_of_isNatural (h : IsNatural (digits cs)) :
    unsigned cs = Taken.after (digits cs) (afterInteger (afterDigits cs)) := by
  unfold unsigned
  split
  · rename_i hdigits
    exact absurd hdigits h.isDigits.1
  · rename_i hdigits
    rw [hdigits] at h
    rcases h with _ | ⟨-, hzero⟩
    exact absurd rfl hzero
  · rfl

/-- Digits that are no integer are broken off behind the leading zero, if there are any. -/
theorem unsigned_of_not_isNatural (h : ¬ IsNatural (digits cs)) :
    unsigned cs = (.unknown, []) ∨ unsigned cs = (.unknown, ['0']) := by
  unfold unsigned
  split
  · exact .inl rfl
  · exact .inr rfl
  · rename_i hnil hzero
    obtain hnatural | ⟨d, more, hdigits⟩ := isNatural_or (isDigits_digits hnil)
    · exact absurd hnatural h
    · exact absurd hdigits (hzero d more)

theorem unsigned_iff (hkind : kind ≠ .unknown) :
    unsigned cs = (kind, taken) ↔ ∃ rest, cs = taken ++ rest ∧
      ∃ i tail, taken = i ++ tail ∧ IsNatural i ∧ NumeralEnd rest kind tail := by
  constructor
  · intro h
    by_cases hnatural : IsNatural (digits cs)
    · rw [unsigned_of_isNatural hnatural] at h
      obtain ⟨tail, rfl, htail⟩ := after_eq_iff.mp h
      obtain ⟨rest, hafter, htail⟩ :=
        (afterInteger_iff hkind (endsDigits_afterDigits cs)).mp htail
      refine ⟨rest, ?_, _, tail, rfl, hnatural, htail⟩
      rw [List.append_assoc, ← hafter, digits_append_afterDigits]
    · rcases unsigned_of_not_isNatural hnatural with hunknown | hunknown
      all_goals
        rw [hunknown] at h
        exact absurd (congrArg Prod.fst h).symm hkind
  · rintro ⟨rest, rfl, i, tail, rfl, hi, htail⟩
    have hdigits : digits (i ++ (tail ++ rest)) = i :=
      hi.isDigits.digits_append htail.endsDigits
    rw [List.append_assoc, unsigned_of_isNatural (hdigits.symm ▸ hi), hdigits,
      afterDigits_of_digits hdigits, after_eq_iff]
    exact ⟨tail, rfl, (afterInteger_iff hkind htail.endsDigits).mpr ⟨rest, rfl, htail⟩⟩

/-- A text starts with a number where the grammar has one. -/
theorem number_iff (hkind : kind ≠ .unknown) :
    number cs = (kind, taken) ↔ ∃ rest, cs = taken ++ rest ∧ Numeral rest kind taken := by
  by_cases hsign : ∃ tail, cs = '-' :: tail
  · obtain ⟨cs, rfl⟩ := hsign
    rw [number, after_eq_iff]
    simp only [unsigned_iff hkind]
    constructor
    · rintro ⟨_, rfl, rest, rfl, i, tail, rfl, hi, htail⟩
      have hnumeral := Numeral.mk (.negative hi) htail
      exact ⟨rest, rfl, hnumeral⟩
    · rintro ⟨rest, hcs, ⟨hi, htail⟩⟩
      cases hi with
      | plain hi =>
        obtain ⟨c, ds, rfl⟩ := List.exists_cons_of_ne_nil hi.isDigits.1
        obtain ⟨rfl, -⟩ := List.cons.inj hcs
        cases hi.isDigits.2 _ List.mem_cons_self
      | negative hi => exact ⟨_, rfl, rest, (List.cons.inj hcs).2, _, _, rfl, hi, htail⟩
  · have hunsigned : number cs = unsigned cs := by
      unfold number
      split
      · exact absurd ⟨_, rfl⟩ hsign
      · rfl
    rw [hunsigned, unsigned_iff hkind]
    constructor
    · rintro ⟨rest, rfl, i, tail, rfl, hi, htail⟩
      exact ⟨rest, rfl, .mk (.plain hi) htail⟩
    · rintro ⟨rest, rfl, ⟨hi, htail⟩⟩
      cases hi with
      | plain hi => exact ⟨rest, rfl, _, _, rfl, hi, htail⟩
      | negative => exact absurd ⟨_, rfl⟩ hsign

/-! ## Texts that break off inside a number -/

theorem isDigits_zero : IsDigits ['0'] := IsNatural.zero.isDigits

/-- Where digits are missing, a zero would do. -/
theorem someDigits_of_unknown (h : (someDigits cs).1 = .unknown) : (someDigits cs).2 = [] := by
  unfold someDigits at h ⊢
  split at h
  · rw [if_pos (by assumption)]
  · cases h

theorem exponent_of_unknown (h : (exponent cs).1 = .unknown) :
    IsScale ((exponent cs).2 ++ ['0']) := by
  cases cs with
  | nil => exact .plain isDigits_zero
  | cons c cs =>
    rw [exponent] at h ⊢
    split at h
    · rename_i hsign
      rw [if_pos hsign, Taken.after, someDigits_of_unknown h]
      exact .signed hsign isDigits_zero
    · rename_i hsign
      rw [if_neg hsign, someDigits_of_unknown h]
      exact .plain isDigits_zero

theorem afterFraction_of_unknown (h : (afterFraction cs).1 = .unknown) :
    IsExponent ((afterFraction cs).2 ++ ['0']) := by
  cases cs with
  | nil => cases h
  | cons c cs =>
    rw [afterFraction] at h ⊢
    split at h
    · rename_i hmark
      rw [if_pos hmark]
      exact .mk hmark (exponent_of_unknown h)
    · cases h

theorem fraction_of_unknown (h : (fraction cs).1 = .unknown) :
    NumeralEnd [] .float ('.' :: ((fraction cs).2 ++ ['0'])) := by
  unfold fraction at h ⊢
  split at h
  · rename_i hdigits
    rw [if_pos hdigits]
    exact .fraction isDigits_zero endsFraction_nil
  · rename_i hdigits
    rw [if_neg hdigits, Taken.after, List.append_assoc]
    exact .scaled (isDigits_digits hdigits) (afterFraction_of_unknown h) endsDigits_nil

theorem afterInteger_of_unknown (h : (afterInteger cs).1 = .unknown) :
    NumeralEnd [] .float ((afterInteger cs).2 ++ ['0']) := by
  cases cs with
  | nil => cases h
  | cons c cs =>
    rw [afterInteger] at h ⊢
    split at h
    · rename_i hpoint
      subst hpoint
      rw [if_pos rfl]
      exact fraction_of_unknown h
    · rename_i hpoint
      rw [if_neg hpoint]
      split at h
      · rename_i hmark
        rw [if_pos hmark]
        exact .exponent (.mk hmark (exponent_of_unknown h)) endsDigits_nil
      · cases h

theorem unsigned_of_unknown (h : (unsigned cs).1 = .unknown) :
    ∃ kind more i tail, (unsigned cs).2 ++ more = i ++ tail ∧ IsNatural i ∧
      NumeralEnd [] kind tail := by
  by_cases hnatural : IsNatural (digits cs)
  · rw [unsigned_of_isNatural hnatural] at h ⊢
    exact ⟨.float, ['0'], _, _, List.append_assoc _ _ _, hnatural, afterInteger_of_unknown h⟩
  · rcases unsigned_of_not_isNatural hnatural with heq | heq
    · rw [heq]
      exact ⟨.int, ['0'], ['0'], [], rfl, .zero, .int endsNumber_nil⟩
    · rw [heq]
      exact ⟨.int, [], ['0'], [], rfl, .zero, .int endsNumber_nil⟩

/-- What is taken of a broken number is the start of a number. -/
theorem number_of_unknown (h : (number cs).1 = .unknown) : StartsNumeral (number cs).2 := by
  unfold number at h ⊢
  split at h
  · obtain ⟨kind, more, i, tail, heq, hi, htail⟩ := unsigned_of_unknown h
    have hnumeral := Numeral.mk (.negative hi) htail
    refine ⟨kind, more, ?_⟩
    rw [Taken.after, List.append_assoc, heq]
    exact hnumeral
  · obtain ⟨kind, more, i, tail, heq, hi, htail⟩ := unsigned_of_unknown h
    refine ⟨kind, more, ?_⟩
    rw [heq]
    exact .mk (.plain hi) htail

theorem Numeral.ne_unknown (h : Numeral rest kind taken) : kind ≠ .unknown := by
  obtain ⟨-, htail⟩ := h
  exact htail.ne_unknown

/-- No longer part of the text is the start of a number: the character that a number breaks off at
decides. -/
theorem StartsNumeral.isPrefix {front : List Char} (h : StartsNumeral front) (hfront : front <+: cs)
    (hunknown : (number cs).1 = .unknown) : front <+: (number cs).2 := by
  obtain ⟨kind, more, hnumeral⟩ := h
  have hwhole : number (front ++ more) = (kind, front ++ more) :=
    (number_iff hnumeral.ne_unknown).mpr ⟨[], (List.append_nil _).symm, hnumeral⟩
  obtain hle | ⟨behind, hbehind⟩ := List.prefix_or_prefix_of_prefix hfront (number_isPrefix cs)
  · exact hle
  cases behind with
  | nil =>
    rw [List.append_nil] at hbehind
    exact hbehind ▸ List.prefix_refl _
  | cons d behind =>
    -- The number would have been broken off in front of `d`, too.
    obtain ⟨rest, rfl⟩ := hfront
    have hcut : number ((number (front ++ rest)).2 ++ d :: (behind ++ rest)) =
        (.unknown, (number (front ++ rest)).2) := by
      rw [← List.cons_append, ← List.append_assoc, hbehind, ← hunknown]
    have hbroken := local_number _ _ _ (d :: (behind ++ more)) hcut (.alike (.same d _ _))
    rw [← List.cons_append, ← List.append_assoc, hbehind, hwhole] at hbroken
    exact absurd (congrArg Prod.fst hbroken) hnumeral.ne_unknown

/-- `front` is the longest start of `cs` that some number starts with. -/
structure LongestStart (cs front : List Char) : Prop where
  isPrefix : front <+: cs
  startsNumeral : StartsNumeral front
  longest : ∀ other, other <+: cs → StartsNumeral other → other <+: front

/-- A number that is broken off is taken as far as it could have been one. -/
theorem longestStart_number (h : (number cs).1 = .unknown) : LongestStart cs (number cs).2 where
  isPrefix := number_isPrefix cs
  startsNumeral := number_of_unknown h
  longest _ hprefix hstarts := hstarts.isPrefix hprefix h

/-! ## Lexemes -/

/-- A sign or a digit starts a number. -/
theorem classify_number {c : Char} (hc : c = '-' ∨ c.isDigit) (cs : List Char) :
    classify (c :: cs) = number (c :: cs) := by
  have hsingle : single? c = none := by
    unfold single?
    split <;> first | rfl | exact absurd hc (by decide)
  have hne : c ≠ '#' ∧ c ≠ '"' := by
    constructor <;> rintro rfl <;> exact absurd hc (by decide)
  simp only [classify, hsingle, if_neg hne.1, if_neg hne.2, if_pos hc]

end Lexical

open Lexical

/-- Where a sign or a digit starts a lexeme, a number is read as far as the grammar has one. Where
there is none, the lexeme is unknown and takes the longest text that some number starts with. -/
theorem Scanner.number_scanned {s : Scanner} {c : Char} {cs : List Char}
    (hrest : s.cursor.skipGap.rest = c :: cs) (hc : c = '-' ∨ c.isDigit) :
    (∀ kind text, kind ≠ .unknown → (s.advance.lexeme = kind ∧ s.advance.text = text ↔
      ∃ rest, c :: cs = text ++ rest ∧ Numeral rest kind text)) ∧
    ((¬ ∃ kind text rest, c :: cs = text ++ rest ∧ Numeral rest kind text) →
      s.advance.lexeme = .unknown ∧ LongestStart (c :: cs) s.advance.text) ∧
    s.advance.start = s.cursor.skipGap.position ∧
    s.advance.cursor = s.cursor.skipGap.consume s.advance.text := by
  have hclassify : classify s.cursor.skipGap.rest = number (c :: cs) := by
    rw [hrest, classify_number hc]
  have hlexeme : s.advance.lexeme = (number (c :: cs)).1 := congrArg Prod.fst hclassify
  have htext : s.advance.text = (number (c :: cs)).2 := congrArg Prod.snd hclassify
  rw [hlexeme, htext]
  refine ⟨fun kind text hkind => ?_, fun hnone => ?_, rfl, htext ▸ rfl⟩
  · rw [← number_iff hkind, Prod.ext_iff]
  · have hunknown : (number (c :: cs)).1 = .unknown := by
      by_contra hkind
      obtain ⟨rest, hsplit, hnumeral⟩ := (number_iff hkind).mp rfl
      exact hnone ⟨_, _, rest, hsplit, hnumeral⟩
    exact ⟨hunknown, longestStart_number hunknown⟩

/-- A whole number behind a space, up to the point of a spread. -/
theorem Scanner.number_scanned_scaled :
    (Scanner.ofText " -1.50e+3...x").advance.lexeme = .float ∧
      (Scanner.ofText " -1.50e+3...x").advance.text = "-1.50e+3".toList := by
  have hi : IsInteger ['-', '1'] :=
    .negative (.digits ⟨List.cons_ne_nil _ _, List.all_eq_true.mp rfl⟩ (by decide))
  have hscale : IsExponent ['e', '+', '3'] :=
    .mk (.inl rfl) (.signed (.inl rfl) ⟨List.cons_ne_nil _ _, List.all_eq_true.mp rfl⟩)
  have hds : IsDigits ['5', '0'] := ⟨List.cons_ne_nil _ _, List.all_eq_true.mp rfl⟩
  have hrest : EndsDigits ['.', '.', '.', 'x'] := by rintro c ⟨⟩; decide
  have hstarts : (Scanner.ofText " -1.50e+3...x").cursor.skipGap.rest =
      '-' :: "1.50e+3...x".toList := by decide
  exact ((number_scanned hstarts (.inl rfl)).1 .float _ (by decide)).mpr
    ⟨['.', '.', '.', 'x'], by decide, .mk hi (.scaled hds hscale hrest)⟩

end GraphQLSyntax
