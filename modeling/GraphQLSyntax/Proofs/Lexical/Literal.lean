import Mathlib.Data.List.TakeWhile
import GraphQLSyntax.Proofs.Lexical.First

/-!
# Literals in front of a text

What a literal takes does not depend on what follows it, as long as this is nothing that the literal
would go on with.

* `number_append`: numbers do not go on with anything but digits, points and exponents.
* `quoted_append`: strings end at their closing quotes.
* `braced_append`: object literals end at their closing brace.
* `classify_name_append`, `classify_literal_append`: the lexemes that these are.
-/

namespace GraphQLSyntax.Lexical

variable {cs rest : List Char}

/-! ## Runs of characters -/

theorem takeWhile_append {p : Char → Bool} (h : ∀ c ∈ rest.head?, p c = false) :
    (cs ++ rest).takeWhile p = cs.takeWhile p := by
  induction cs with
  | nil =>
    cases rest with
    | nil => rfl
    | cons c rest => simp [h c rfl]
  | cons c cs ih =>
    by_cases hc : p c
    · rw [List.cons_append, List.takeWhile_cons_of_pos hc, List.takeWhile_cons_of_pos hc, ih]
    · rw [List.cons_append, List.takeWhile_cons_of_neg hc, List.takeWhile_cons_of_neg hc]

theorem dropWhile_append {p : Char → Bool} (h : ∀ c ∈ rest.head?, p c = false) :
    (cs ++ rest).dropWhile p = cs.dropWhile p ++ rest := by
  induction cs with
  | nil =>
    cases rest with
    | nil => rfl
    | cons c rest => simp [h c rfl]
  | cons c cs ih =>
    by_cases hc : p c
    · rw [List.cons_append, List.dropWhile_cons_of_pos hc, List.dropWhile_cons_of_pos hc, ih]
    · rw [List.cons_append, List.dropWhile_cons_of_neg hc, List.dropWhile_cons_of_neg hc,
        List.cons_append]

/-! ## Numbers -/

/-- No number goes on with this text. -/
def EndsNumber (rest : List Char) : Prop :=
  ∀ c ∈ rest.head?, c.isDigit = false ∧ c ≠ '.' ∧ c ≠ 'e' ∧ c ≠ 'E'

section

variable (hrest : EndsNumber rest)
include hrest

theorem digits_append : digits (cs ++ rest) = digits cs :=
  takeWhile_append fun c hc => (hrest c hc).1

theorem afterDigits_append : afterDigits (cs ++ rest) = afterDigits cs ++ rest :=
  dropWhile_append fun c hc => (hrest c hc).1

theorem someDigits_append : someDigits (cs ++ rest) = someDigits cs := by
  unfold someDigits
  rw [digits_append hrest]

theorem exponent_append (h : (exponent cs).1 ≠ .unknown) : exponent (cs ++ rest) = exponent cs := by
  cases cs with
  | nil => exact absurd rfl h
  | cons c cs =>
    rw [List.cons_append, exponent, exponent, someDigits_append hrest, ← List.cons_append,
      someDigits_append hrest]

theorem afterFraction_append (h : (afterFraction cs).1 ≠ .unknown) :
    afterFraction (cs ++ rest) = afterFraction cs := by
  cases cs with
  | nil =>
    cases rest with
    | nil => rfl
    | cons c rest =>
      obtain ⟨-, -, he, hE⟩ := hrest c rfl
      simp [afterFraction, he, hE]
  | cons c cs =>
    rw [List.cons_append, afterFraction, afterFraction]
    unfold afterFraction at h
    dsimp only at h
    split
    · rename_i hc
      rw [if_pos hc] at h
      rw [exponent_append hrest h]
    · rfl

theorem fraction_append (h : (fraction cs).1 ≠ .unknown) : fraction (cs ++ rest) = fraction cs := by
  unfold fraction at h ⊢
  rw [digits_append hrest, afterDigits_append hrest]
  split
  · rfl
  · rename_i hdigits
    rw [if_neg hdigits] at h
    rw [afterFraction_append hrest h]

theorem afterInteger_append (h : (afterInteger cs).1 ≠ .unknown) :
    afterInteger (cs ++ rest) = afterInteger cs := by
  cases cs with
  | nil =>
    cases rest with
    | nil => rfl
    | cons c rest =>
      obtain ⟨-, hpoint, he, hE⟩ := hrest c rfl
      simp [afterInteger, hpoint, he, hE]
  | cons c cs =>
    rw [List.cons_append, afterInteger, afterInteger]
    unfold afterInteger at h
    dsimp only at h
    split
    · rename_i hc
      rw [if_pos hc] at h
      rw [fraction_append hrest h]
    · rename_i hpoint
      rw [if_neg hpoint] at h
      split
      · rename_i hc
        rw [if_pos hc] at h
        rw [exponent_append hrest h]
      · rfl

theorem unsigned_append (h : (unsigned cs).1 ≠ .unknown) : unsigned (cs ++ rest) = unsigned cs := by
  unfold unsigned at h ⊢
  rw [digits_append hrest, afterDigits_append hrest]
  split
  · rfl
  · rfl
  · rename_i hnil hzero
    have hint : (afterInteger (afterDigits cs)).1 ≠ .unknown := by
      split at h
      · exact absurd rfl h
      · exact absurd rfl h
      · exact h
    rw [afterInteger_append hrest hint]

/-- A number that is read to its end does not take more in front of such a text. -/
theorem number_append (h : (number cs).1 ≠ .unknown) : number (cs ++ rest) = number cs := by
  cases cs with
  | nil => exact absurd rfl h
  | cons c cs =>
    by_cases hc : c = '-'
    · subst hc
      exact congrArg (Taken.after ['-']) (unsigned_append hrest h)
    · have hnumber (cs : List Char) : number (c :: cs) = unsigned (c :: cs) := by
        unfold number
        split
        · rename_i heq
          exact absurd (List.cons.inj heq).1 hc
        · rfl
      rw [hnumber] at h
      rw [List.cons_append, hnumber, hnumber, ← List.cons_append, unsigned_append hrest h]

end

/-! ## Strings -/

theorem throughClosing?_append {n seen : Nat} {body : List Char}
    (h : throughClosing? n seen cs = some body) :
    throughClosing? n seen (cs ++ rest) = some body := by
  fun_induction throughClosing? n seen cs generalizing body with
  | case1 seen hseen =>
    obtain rfl := Option.some.inj h
    rw [List.nil_append]
    unfold throughClosing?
    cases rest <;> dsimp only <;> rw [if_pos hseen]
  | case2 => cases h
  | case3 seen c cs hseen =>
    obtain rfl := Option.some.inj h
    rw [List.cons_append]
    unfold throughClosing?
    rw [if_pos hseen]
  | case4 seen cs hseen ih =>
    obtain ⟨b, hb, rfl⟩ := Option.map_eq_some_iff.mp h
    rw [List.cons_append]
    unfold throughClosing?
    rw [if_neg hseen, if_pos rfl, ih hb, Option.map_some]
  | case5 => cases h
  | case6 seen hseen escaped cs hne ih =>
    obtain ⟨b, hb, rfl⟩ := Option.map_eq_some_iff.mp h
    simp [throughClosing?, hseen, ih hb]
  | case7 seen c cs hseen hquote hslash ih =>
    obtain ⟨b, hb, rfl⟩ := Option.map_eq_some_iff.mp h
    rw [List.cons_append]
    unfold throughClosing?
    rw [if_neg hseen, if_neg hquote, if_neg hslash, ih hb, Option.map_some]

theorem closedBy_append {n : Nat} {kind : Lexeme} {opening : List Char}
    (h : (closedBy n kind opening cs).1 ≠ .unknown) :
    closedBy n kind opening (cs ++ rest) = closedBy n kind opening cs := by
  unfold closedBy at h ⊢
  cases hbody : throughClosing? n 0 cs with
  | none =>
    rw [hbody] at h
    exact absurd rfl h
  | some body => rw [throughClosing?_append hbody]

/-- A string literal that is read to its end does not take more in front of another text, as long as
this does not add to its opening quotes. -/
theorem quoted_append {allowBlock : Bool} (h : (quoted allowBlock cs).1 ≠ .unknown)
    (hquotes : quotes (cs ++ rest) = quotes cs) :
    quoted allowBlock (cs ++ rest) = quoted allowBlock cs := by
  have hbody : (cs ++ rest).drop (quotes cs).length = cs.drop (quotes cs).length ++ rest :=
    List.drop_append_of_le_length (List.takeWhile_prefix _).length_le
  unfold quoted at h ⊢
  dsimp only at h ⊢
  rw [hquotes, hbody]
  generalize (quotes cs).length = n at h ⊢
  split
  · exact closedBy_append h
  · rfl
  · rfl
  · split
    · rename_i hblock
      rw [if_pos hblock] at h
      exact closedBy_append h
    · rfl
  · rfl

theorem quotes_append (h : rest.head? ≠ some '"') : quotes (cs ++ rest) = quotes cs := by
  refine takeWhile_append fun c hc => ?_
  rw [beq_eq_false_iff_ne]
  rintro rfl
  exact h hc

/-- Quotes end at any other character. -/
theorem quotes_append_of_mem {c : Char} (hmem : c ∈ cs) (hc : c ≠ '"') :
    quotes (cs ++ rest) = quotes cs := by
  obtain ⟨front, back, rfl⟩ := List.append_of_mem hmem
  have hhead (back : List Char) : (c :: back).head? ≠ some '"' := by
    rw [List.head?_cons]
    exact fun h => hc (Option.some.inj h)
  rw [List.append_assoc, List.cons_append, quotes_append (hhead _), quotes_append (hhead _)]

/-! ## Objects -/

theorem braced_kind (depth : Nat) (cs : List Char) :
    (braced depth cs).1 = .unknown ∨ (braced depth cs).1 = .object := by
  fun_induction braced depth cs with
  | case1 => exact .inl rfl
  | case2 _ _ literal h => exact .inl h
  | case3 _ _ _ _ ih => exact ih
  | case4 _ _ _ ih => exact ih
  | case5 => exact .inr rfl
  | case6 _ _ _ _ ih => exact ih
  | case7 _ _ _ _ _ _ ih => exact ih

theorem braced_cons (depth : Nat) (c : Char) (cs : List Char) : braced depth (c :: cs) =
    if c = '"' then
      if (quoted false (c :: cs)).1 = .unknown then quoted false (c :: cs)
      else Taken.after (quoted false (c :: cs)).2
        (braced depth ((c :: cs).drop (quoted false (c :: cs)).2.length))
    else if c = '{' then Taken.after [c] (braced (depth + 1) cs)
    else if c = '}' then
      match depth with
      | 0 => (.object, [c])
      | depth + 1 => Taken.after [c] (braced depth cs)
    else Taken.after [c] (braced depth cs) :=
  braced.eq_def depth (c :: cs)

/-- An object literal has a closing brace. -/
theorem mem_of_braced {depth : Nat} (h : (braced depth cs).1 = .object) : '}' ∈ cs := by
  fun_induction braced depth cs with
  | case1 => cases h
  | case2 _ _ literal hliteral =>
    rw [hliteral] at h
    cases h
  | case3 _ rest literal _ ih => exact List.mem_of_mem_drop (ih h)
  | case4 _ _ _ ih => exact List.mem_cons_of_mem _ (ih h)
  | case5 => exact List.mem_cons_self
  | case6 => exact List.mem_cons_self
  | case7 _ _ _ _ _ _ ih => exact List.mem_cons_of_mem _ (ih h)

/-- An object literal does not take more in front of any text. -/
theorem braced_append {depth : Nat} (h : (braced depth cs).1 = .object) :
    braced depth (cs ++ rest) = braced depth cs := by
  fun_induction braced depth cs with
  | case1 => cases h
  | case2 _ _ literal hliteral =>
    rw [hliteral] at h
    cases h
  | case3 depth tail literal hliteral ih =>
    have hdrop := ih h
    have hclose := mem_of_braced h
    have hquoted : quoted false ('"' :: tail ++ rest) = quoted false ('"' :: tail) :=
      quoted_append hliteral (quotes_append_of_mem (List.mem_of_mem_drop hclose) (by decide))
    have hle : literal.2.length ≤ ('"' :: tail).length := (quoted_isPrefix false _).length_le
    rw [List.cons_append, braced_cons, if_pos rfl, ← List.cons_append, hquoted, if_neg hliteral,
      List.drop_append_of_le_length hle]
    exact congrArg (Taken.after literal.2) hdrop
  | case4 depth tail _ ih =>
    rw [List.cons_append, braced_cons, if_neg (by decide), if_pos rfl, ih h]
  | case5 tail =>
    rw [List.cons_append, braced_cons, if_neg (by decide), if_neg (by decide), if_pos rfl]
  | case6 tail _ _ depth ih =>
    rw [List.cons_append, braced_cons, if_neg (by decide), if_neg (by decide), if_pos rfl]
    exact congrArg (Taken.after ['}']) (ih h)
  | case7 depth c tail hquote hopen hclose ih =>
    rw [List.cons_append, braced_cons, if_neg hquote, if_neg hopen, if_neg hclose, ih h]

theorem exists_eq_object {cs : List Char} (h : (braced 0 cs).1 ≠ .unknown) :
    ∃ body, braced 0 cs = (.object, body) := by
  have hobject := (braced_kind 0 cs).resolve_left h
  exact ⟨(braced 0 cs).2, by rw [← hobject]⟩

/-! ## Lexemes -/

/-- A letter or an underscore, and any letters, digits and underscores behind it. -/
def IsName (cs : List Char) : Prop :=
  ∃ c tail, cs = c :: tail ∧ isNameStart c ∧ ∀ d ∈ tail, isNamePart d

instance decidableIsName : DecidablePred IsName
  | [] => isFalse (by rintro ⟨_, _, ⟨⟩, _⟩)
  | c :: tail => decidable_of_iff (isNameStart c ∧ tail.all isNamePart)
      ⟨fun h => ⟨c, tail, rfl, h.1, List.all_eq_true.mp h.2⟩,
        by rintro ⟨_, _, ⟨⟩, hc, htail⟩; exact ⟨hc, List.all_eq_true.mpr htail⟩⟩

theorem isName_of_classify {name : List Char} (h : classify cs = (.name, name)) : IsName name := by
  obtain ⟨c, rest, rfl, hc⟩ := classify_name_iff.mp (congrArg Prod.fst h)
  rw [classify_name hc, Prod.mk.injEq] at h
  exact ⟨c, _, h.2.symm, hc, fun d hd => List.mem_takeWhile_imp hd⟩

/-- A name is read up to the first character that is not part of a name. -/
theorem classify_name_append (h : IsName cs) (hrest : ∀ c ∈ rest.head?, isNamePart c = false) :
    classify (cs ++ rest) = (.name, cs) := by
  obtain ⟨c, tail, rfl, hc, htail⟩ := h
  rw [List.cons_append, classify_name hc, takeWhile_append hrest,
    List.takeWhile_eq_self_iff.mpr htail]

/-- A number or a string that is a lexeme is one in front of a text that it does not go on with. -/
theorem classify_literal_append {kind : Lexeme}
    (hkind : kind ∈ [.int, .float, .string, .blockString]) (h : classify cs = (kind, cs))
    (hnumber : EndsNumber rest) (hquote : rest.head? ≠ some '"') :
    classify (cs ++ rest) = (kind, cs) := by
  have hne (l : Lexeme) (hl : l ∉ [.int, .float, .string, .blockString]) :
      (classify cs).1 ≠ l := by
    rintro rfl
    rw [h] at hl
    exact hl hkind
  have hknown := hne .unknown (by decide)
  rw [← h]
  cases cs with
  | nil => exact absurd rfl (hne .eof (by decide))
  | cons c cs =>
    cases hsingle : single? c with
    | some k =>
      refine absurd (congrArg Prod.fst (classify_single hsingle cs)) (hne k ?_)
      unfold single? at hsingle
      split at hsingle <;> cases hsingle <;> decide
    | none =>
      rw [List.cons_append]
      unfold classify at hknown hne ⊢
      simp only [hsingle] at hknown hne ⊢
      by_cases hhash : c = '#'
      · rw [if_pos hhash] at hne
        exact absurd rfl (hne .comment (by decide))
      rw [if_neg hhash] at hknown hne
      rw [if_neg hhash, if_neg hhash]
      by_cases hc : c = '"'
      · rw [if_pos hc] at hknown
        rw [if_pos hc, if_pos hc]
        exact quoted_append hknown (quotes_append hquote)
      rw [if_neg hc] at hknown hne
      rw [if_neg hc, if_neg hc]
      by_cases hdigit : c = '-' ∨ c.isDigit
      · rw [if_pos hdigit] at hknown
        rw [if_pos hdigit, if_pos hdigit]
        exact number_append hnumber hknown
      rw [if_neg hdigit] at hknown hne
      by_cases hname : isNameStart c
      · rw [if_pos hname] at hne
        exact absurd rfl (hne .name (by decide))
      · rw [if_neg hname] at hknown
        exact absurd rfl hknown

end GraphQLSyntax.Lexical
