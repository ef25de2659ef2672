import GraphQLSyntax.Lexeme.Basic

/-!
# Numbers

A number is `-?(0|[1-9][0-9]*)`, then a fraction `.[0-9]+`, an exponent `[eE][+-]?[0-9]+`, both, or
neither. Each reader here gives the kind of literal a text starts with, and the part of the text
that it takes. A text that breaks off inside a number is taken up to where it goes wrong.

* `number`: a whole number literal.
* `number_isPrefix`: what is taken is how the text starts.
* `number_kind`: the kinds that a number can turn out to be.
-/

namespace GraphQLSyntax.Lexical

/-- Puts what was taken before in front of what a reader takes. -/
def Taken.after (taken : List Char) (r : Lexeme × List Char) : Lexeme × List Char :=
  (r.1, taken ++ r.2)

/-- The digits a text starts with. -/
def digits (cs : List Char) : List Char := cs.takeWhile Char.isDigit

/-- What follows the digits a text starts with. -/
def afterDigits (cs : List Char) : List Char := cs.dropWhile Char.isDigit

/-- The digits that an exponent or a fraction must have. -/
def someDigits (cs : List Char) : Lexeme × List Char :=
  if digits cs = [] then (.unknown, []) else (.float, digits cs)

/-- What follows the `e` of an exponent. -/
def exponent : List Char → Lexeme × List Char
  | [] => (.unknown, [])
  | c :: cs => if c = '+' ∨ c = '-' then Taken.after [c] (someDigits cs) else someDigits (c :: cs)

/-- The exponent that may follow a fraction. -/
def afterFraction : List Char → Lexeme × List Char
  | [] => (.float, [])
  | c :: cs => if c = 'e' ∨ c = 'E' then Taken.after [c] (exponent cs) else (.float, [])

/-- What follows the point of a fraction. -/
def fraction (cs : List Char) : Lexeme × List Char :=
  if digits cs = [] then (.unknown, [])
  else Taken.after (digits cs) (afterFraction (afterDigits cs))

/-- The fraction or exponent that may follow the integer part. -/
def afterInteger : List Char → Lexeme × List Char
  | [] => (.int, [])
  | c :: cs =>
    if c = '.' then Taken.after [c] (fraction cs)
    else if c = 'e' ∨ c = 'E' then Taken.after [c] (exponent cs)
    else (.int, [])

/-- A number without its sign. A leading `0` stands alone. -/
def unsigned (cs : List Char) : Lexeme × List Char :=
  match digits cs with
  | [] => (.unknown, [])
  | '0' :: _ :: _ => (.unknown, ['0'])
  | ds => Taken.after ds (afterInteger (afterDigits cs))

/-- The number that a text starts with. -/
def number : List Char → Lexeme × List Char
  | '-' :: cs => Taken.after ['-'] (unsigned cs)
  | cs => unsigned cs

/-! ## What is taken -/

theorem digits_append_afterDigits (cs : List Char) : digits cs ++ afterDigits cs = cs :=
  List.takeWhile_append_dropWhile

private theorem after_isPrefix {taken : List Char} {r : Lexeme × List Char} {cs ds : List Char}
    (h : r.2 <+: ds) (hcs : taken ++ ds = cs) : (Taken.after taken r).2 <+: cs := by
  obtain ⟨es, rfl⟩ := h
  exact ⟨es, by simp [Taken.after, ← hcs]⟩

theorem someDigits_isPrefix (cs : List Char) : (someDigits cs).2 <+: cs := by
  unfold someDigits
  split
  · exact List.nil_prefix
  · exact List.takeWhile_prefix _

theorem exponent_isPrefix (cs : List Char) : (exponent cs).2 <+: cs := by
  unfold exponent
  split
  · exact List.nil_prefix
  · split
    · exact after_isPrefix (someDigits_isPrefix _) rfl
    · exact someDigits_isPrefix _

theorem afterFraction_isPrefix (cs : List Char) : (afterFraction cs).2 <+: cs := by
  unfold afterFraction
  split
  · exact List.nil_prefix
  · split
    · exact after_isPrefix (exponent_isPrefix _) rfl
    · exact List.nil_prefix

theorem fraction_isPrefix (cs : List Char) : (fraction cs).2 <+: cs := by
  unfold fraction
  split
  · exact List.nil_prefix
  · exact after_isPrefix (afterFraction_isPrefix _) (digits_append_afterDigits cs)

theorem afterInteger_isPrefix (cs : List Char) : (afterInteger cs).2 <+: cs := by
  unfold afterInteger
  split
  · exact List.nil_prefix
  · split
    · exact after_isPrefix (fraction_isPrefix _) rfl
    · split
      · exact after_isPrefix (exponent_isPrefix _) rfl
      · exact List.nil_prefix

theorem unsigned_isPrefix (cs : List Char) : (unsigned cs).2 <+: cs := by
  unfold unsigned
  have h := digits_append_afterDigits cs
  split
  · exact List.nil_prefix
  · rename_i heq
    exact ⟨_, by rw [← h, heq]; rfl⟩
  · exact after_isPrefix (afterInteger_isPrefix _) h

/-- What a number takes is how the text starts. -/
theorem number_isPrefix (cs : List Char) : (number cs).2 <+: cs := by
  unfold number
  split
  · exact after_isPrefix (unsigned_isPrefix _) rfl
  · exact unsigned_isPrefix _

theorem unsigned_ne_nil {c : Char} (hc : c.isDigit) (cs : List Char) :
    (unsigned (c :: cs)).2 ≠ [] := by
  unfold unsigned
  split
  · rename_i h
    simp [digits, hc] at h
  · simp
  · rename_i hne _
    exact List.append_ne_nil_of_left_ne_nil hne _

/-- A text that starts with a sign or a digit loses at least that. -/
theorem number_ne_nil {c : Char} (hc : c = '-' ∨ c.isDigit) (cs : List Char) :
    (number (c :: cs)).2 ≠ [] := by
  unfold number
  split
  · simp [Taken.after]
  · rename_i hne
    rcases hc with rfl | hc
    · exact absurd rfl (hne cs)
    · exact unsigned_ne_nil hc cs

/-! ## What it turns out to be -/

theorem exponent_kind (cs : List Char) :
    (exponent cs).1 = .unknown ∨ (exponent cs).1 = .float := by
  unfold exponent
  split
  · exact .inl rfl
  · split <;> simp only [Taken.after, someDigits] <;> split <;> simp

theorem fraction_kind (cs : List Char) :
    (fraction cs).1 = .unknown ∨ (fraction cs).1 = .float := by
  unfold fraction
  split
  · exact .inl rfl
  · simp only [Taken.after, afterFraction]
    split
    · exact .inr rfl
    · split
      · exact exponent_kind _
      · exact .inr rfl

private theorem unsigned_kind (cs : List Char) :
    (unsigned cs).1 = .unknown ∨ (unsigned cs).1 = .int ∨ (unsigned cs).1 = .float := by
  unfold unsigned
  split
  · exact .inl rfl
  · exact .inl rfl
  · simp only [Taken.after, afterInteger]
    split
    · exact .inr (.inl rfl)
    · split
      · exact (fraction_kind _).imp_right .inr
      · split
        · exact (exponent_kind _).imp_right .inr
        · exact .inr (.inl rfl)

/-- A number is a whole number, has a fraction or an exponent, or is broken off. -/
theorem number_kind (cs : List Char) :
    (number cs).1 = .unknown ∨ (number cs).1 = .int ∨ (number cs).1 = .float := by
  unfold number
  split
  · exact unsigned_kind _
  · exact unsigned_kind _

end GraphQLSyntax.Lexical
