import GraphQLSyntax.Lexical.Bracketed
import GraphQLSyntax.Proofs.Lexical.Literal
import GraphQLSyntax.Proofs.Lexical.OneByte
import GraphQLSyntax.Proofs.Text.Bytes

/-!
# What a lexeme depends on

Where a lexeme ends is told from the next character at most, and from that only whether the lexeme
goes on with it.

* `apart`: the characters that no lexeme but a comment goes on with.
* `EndsAlike`: a lexeme that ends in front of one text ends in front of the other.
* `Local`: a reader takes the same in front of texts that end it alike.
* `Local.optional`: a reader that goes on where the next character tells it to.
* `local_classify`, `local_braced`: lexemes and object literals.
* `openings_congr`, `closings_congr`: the brackets of a type.
-/

namespace GraphQLSyntax

theorem Text.StartAlike.append {cs ds : List Char} (h : StartAlike cs ds) (taken : List Char) :
    StartAlike (taken ++ cs) (taken ++ ds) := by
  cases taken with
  | nil => exact h
  | cons c taken => exact .same c _ _

namespace Lexical

variable {kind : Lexeme} {taken rest rest' : List Char} {p : Char → Bool}

/-- The characters that end every lexeme but a comment: those that may follow it between lexemes,
and the closing brace. -/
def apart : List Char :=
  ['}', '#', ' ', ',', '\n', '\r', '\t', '\x0c', '\x08', byteOrderMark]

theorem mem_apart_of_isGap {c : Char} (h : isGap c) : c ∈ apart := by
  simp only [isGap, isIgnorable, Bool.or_eq_true, beq_iff_eq] at h
  rcases h with ((((((rfl | rfl) | rfl) | rfl) | rfl) | rfl) | rfl) | rfl <;> decide

/-- Behind a lexeme of the given kind, one text may stand in the place of another: they start alike,
or the lexeme is whole and the text is cut off, at its end or in front of what ends the lexeme. -/
inductive EndsAlike (kind : Lexeme) (rest rest' : List Char) : Prop where
  | alike (h : Text.StartAlike rest rest')
  | cut (hkind : kind.isControl = false) (hcomment : kind ≠ .comment)
    (h : ∀ c ∈ rest'.head?, c ∈ apart)

/-! ## Characters that are looked for -/

/-- Characters that take fewer than four bytes. -/
def Narrow (p : Char → Bool) : Prop := ∀ c, c.utf8Size = 4 → p c = false

namespace Narrow

/-- Characters of one byte are no wide ones. -/
theorem of_oneByte (h : OneByte p) : Narrow p := fun c hc => h.eq_false (by omega)

theorem char (d : Char) (hd : d.utf8Size ≠ 4) : Narrow (· == d) := by
  refine fun c hc => beq_eq_false_iff_ne.mpr ?_
  rintro rfl
  exact hd hc

theorem or {q : Char → Bool} (hp : Narrow p) (hq : Narrow q) : Narrow fun c => p c || q c :=
  fun c hc => Bool.or_eq_false_iff.mpr ⟨hp c hc, hq c hc⟩

theorem isIgnorable : Narrow isIgnorable := .of_oneByte .isIgnorable

theorem isGap : Narrow isGap := isIgnorable.or (.char byteOrderMark (by decide))

theorem isLineBreak : Narrow Text.isLineBreak := .of_oneByte .isLineBreak

/-- Where a run of characters ends in front of one text, it ends in front of every other that starts
alike. -/
theorem head (hp : Narrow p) (h : Text.StartAlike rest rest')
    (hrest : ∀ c ∈ rest.head?, p c = false) : ∀ c ∈ rest'.head?, p c = false := by
  cases h with
  | nil => exact hrest
  | same c cs ds => exact hrest
  | wide cs ds _ hd =>
    rintro d ⟨⟩
    exact hp _ hd

end Narrow

/-- Characters that a lexeme goes on with: none of four bytes, and none that ends a lexeme. -/
structure Continues (p : Char → Bool) : Prop where
  narrow : Narrow p
  apart : ∀ c ∈ apart, p c = false

namespace Continues

theorem char (d : Char) (hd : d.utf8Size ≠ 4) (hapart : d ∉ Lexical.apart) :
    Continues (· == d) := by
  refine ⟨.char d hd, fun c hc => beq_eq_false_iff_ne.mpr ?_⟩
  rintro rfl
  exact hapart hc

theorem of_all (hp : Narrow p) (hapart : Lexical.apart.all (fun c => !p c) = true) :
    Continues p :=
  ⟨hp, fun c hc => by simpa using List.all_eq_true.mp hapart c hc⟩

theorem or {q : Char → Bool} (hp : Continues p) (hq : Continues q) :
    Continues fun c => p c || q c :=
  ⟨hp.narrow.or hq.narrow, fun c hc => Bool.or_eq_false_iff.mpr ⟨hp.apart c hc, hq.apart c hc⟩⟩

theorem isDigit : Continues Char.isDigit := .of_all (.of_oneByte .isDigit) (by decide)

theorem isNamePart : Continues isNamePart := .of_all (.of_oneByte .isNamePart) (by decide)

theorem isNameStart : Continues isNameStart := .of_all (.of_oneByte .isNameStart) (by decide)

end Continues

namespace EndsAlike

theorem behind (h : EndsAlike kind rest rest') (more : List Char) :
    EndsAlike kind (more ++ rest) (more ++ rest') := by
  cases more with
  | nil => exact h
  | cons c more => exact .alike (.same c _ _)

/-- Only what is broken off depends on more than whether a lexeme goes on. -/
theorem of_whole (h : EndsAlike kind rest rest') {whole : Lexeme}
    (hwhole : whole.isControl = false) (hcomment : whole ≠ .comment) :
    EndsAlike whole rest rest' := by
  cases h with
  | alike h => exact .alike h
  | cut _ _ h => exact .cut hwhole hcomment h

/-- Where a lexeme does not go on with what follows it, it does not go on with the other, either. -/
theorem head (h : EndsAlike kind rest rest') (hp : Continues p)
    (hrest : ∀ c ∈ rest.head?, p c = false) : ∀ c ∈ rest'.head?, p c = false := by
  cases h with
  | alike h => exact hp.narrow.head h hrest
  | cut _ _ h => exact fun c hc => hp.apart c (h c hc)

/-- What is broken off at the end of a text is broken off at the end of the other. -/
theorem eq_nil (h : EndsAlike kind [] rest') (hkind : kind.isControl) : rest' = [] := by
  cases h with
  | alike h =>
    cases h
    rfl
  | cut hknown => rw [hkind] at hknown; cases hknown

end EndsAlike

/-! ## Runs of characters -/

theorem takeWhile_append_eq_left :
    (taken ++ rest).takeWhile p = taken ↔ (∀ c ∈ taken, p c) ∧ ∀ c ∈ rest.head?, p c = false := by
  induction taken with
  | nil =>
    cases rest with
    | nil => simp
    | cons c rest => by_cases hc : p c <;> simp [hc]
  | cons c taken ih =>
    by_cases hc : p c
    · simp [hc, ih]
    · simp [hc]

theorem takeWhile_congr (hp : Continues p) (h : (taken ++ rest).takeWhile p = taken)
    (hends : EndsAlike kind rest rest') : (taken ++ rest').takeWhile p = taken := by
  obtain ⟨htaken, hrest⟩ := takeWhile_append_eq_left.mp h
  exact takeWhile_append_eq_left.mpr ⟨htaken, hends.head hp hrest⟩

theorem Narrow.takeWhile_congr (hp : Narrow p) (h : (taken ++ rest).takeWhile p = taken)
    (hstart : Text.StartAlike rest rest') : (taken ++ rest').takeWhile p = taken := by
  obtain ⟨htaken, hrest⟩ := takeWhile_append_eq_left.mp h
  exact takeWhile_append_eq_left.mpr ⟨htaken, hp.head hstart hrest⟩

/-! ## Readers of lexemes -/

/-- What a reader takes depends on the next character at most. -/
def Local (f : List Char → Lexeme × List Char) : Prop :=
  ∀ kind taken rest rest', f (taken ++ rest) = (kind, taken) → EndsAlike kind rest rest' →
    f (taken ++ rest') = (kind, taken)

theorem after_eq_iff {front taken : List Char} {r : Lexeme × List Char} :
    Taken.after front r = (kind, taken) ↔ ∃ tail, taken = front ++ tail ∧ r = (kind, tail) := by
  constructor
  · intro h
    obtain ⟨rfl, rfl⟩ := Prod.mk.inj h
    exact ⟨r.2, rfl, rfl⟩
  · rintro ⟨tail, rfl, rfl⟩
    rfl

namespace Local

variable {f g base : List Char → Lexeme × List Char}

theorem const (kind : Lexeme) : Local fun _ => (kind, []) := fun _ _ _ _ h _ => h

/-- A reader that goes on where the next character tells it to. -/
theorem optional {next : Char → List Char → Lexeme × List Char} (hp : Continues p)
    (hnext : ∀ c, p c → Local (next c)) (hbase : Local base)
    (hgo : ∀ c cs, p c → f (c :: cs) = Taken.after [c] (next c cs))
    (hstop : ∀ cs, (∀ c ∈ cs.head?, p c = false) → f cs = base cs) : Local f := by
  intro kind taken rest rest' h hends
  cases taken with
  | nil =>
    have hhead : ∀ c ∈ rest.head?, p c = false := by
      intro c hc
      obtain ⟨cs, rfl⟩ := List.head?_eq_some_iff.mp hc
      refine Bool.eq_false_iff.mpr fun hpc => ?_
      rw [List.nil_append, hgo c cs hpc, after_eq_iff] at h
      obtain ⟨tail, htail, -⟩ := h
      cases htail
    rw [List.nil_append, hstop rest hhead] at h
    rw [List.nil_append, hstop rest' (hends.head hp hhead)]
    exact hbase kind [] rest rest' h hends
  | cons c cs =>
    by_cases hpc : p c
    · rw [List.cons_append, hgo _ _ hpc, after_eq_iff] at h ⊢
      obtain ⟨tail, htail, hr⟩ := h
      obtain rfl := (List.cons.inj htail).2
      exact ⟨cs, rfl, hnext c hpc kind cs rest rest' hr hends⟩
    · have hhead (more : List Char) : ∀ d ∈ (c :: cs ++ more).head?, p d = false := by
        rintro d ⟨⟩
        exact Bool.eq_false_iff.mpr hpc
      rw [hstop _ (hhead rest)] at h
      rw [hstop _ (hhead rest')]
      exact hbase kind (c :: cs) rest rest' h hends

end Local

/-! ## Numbers -/

/-- What follows the digits that a text starts with. -/
theorem afterDigits_of_digits {ds more : List Char} (h : digits (ds ++ more) = ds) :
    afterDigits (ds ++ more) = more := by
  have hsplit := digits_append_afterDigits (ds ++ more)
  rw [h] at hsplit
  exact List.append_cancel_left hsplit

/-- Reading on behind some digits. -/
theorem digits_congr {ds tail : List Char} (hdigits : digits (taken ++ rest) = ds)
    (htaken : taken = ds ++ tail) (hends : EndsAlike kind rest rest') :
    digits (taken ++ rest') = ds ∧ afterDigits (taken ++ rest) = tail ++ rest ∧
      afterDigits (taken ++ rest') = tail ++ rest' := by
  subst htaken
  rw [List.append_assoc] at hdigits
  have hdigits' := takeWhile_congr .isDigit hdigits (hends.behind tail)
  rw [List.append_assoc, List.append_assoc]
  exact ⟨hdigits', afterDigits_of_digits hdigits, afterDigits_of_digits hdigits'⟩

theorem local_someDigits : Local someDigits := by
  have heq (cs : List Char) :
      someDigits cs = (if digits cs = [] then .unknown else .float, digits cs) := by
    unfold someDigits
    split
    · rename_i h
      rw [h]
    · rfl
  intro kind taken rest rest' h hends
  rw [heq] at h ⊢
  obtain ⟨hkind, hdigits⟩ := Prod.mk.inj h
  rw [(digits_congr hdigits (List.append_nil _).symm hends).1, ← hkind, hdigits]

theorem continues_sign : Continues fun c => c == '+' || c == '-' :=
  .or (.char '+' (by decide) (by decide)) (.char '-' (by decide) (by decide))

theorem continues_exponent : Continues fun c => c == 'e' || c == 'E' :=
  .or (.char 'e' (by decide) (by decide)) (.char 'E' (by decide) (by decide))

theorem local_exponent : Local exponent := by
  refine .optional continues_sign (fun _ _ => local_someDigits) local_someDigits ?_ ?_
  · intro c cs hc
    rw [exponent, if_pos (by simpa using hc)]
  · intro cs h
    cases cs with
    | nil => rfl
    | cons c cs => rw [exponent, if_neg (by simpa using h c rfl)]

theorem local_afterFraction : Local afterFraction := by
  refine .optional continues_exponent (fun _ _ => local_exponent) (.const .float) ?_ ?_
  · intro c cs hc
    rw [afterFraction, if_pos (by simpa using hc)]
  · intro cs h
    cases cs with
    | nil => rfl
    | cons c cs => rw [afterFraction, if_neg (by simpa using h c rfl)]

theorem local_fraction : Local fraction := by
  intro kind taken rest rest' h hends
  unfold fraction at h ⊢
  split at h
  · rename_i hdigits
    obtain ⟨rfl, rfl⟩ := Prod.mk.inj h
    rw [(digits_congr hdigits rfl hends).1, if_pos rfl]
  · rename_i hdigits
    obtain ⟨tail, htail, hr⟩ := after_eq_iff.mp h
    obtain ⟨hdigits', hafter, hafter'⟩ := digits_congr rfl htail hends
    rw [hafter] at hr
    rw [hdigits', if_neg hdigits, hafter']
    exact after_eq_iff.mpr ⟨tail, htail, local_afterFraction _ _ _ _ hr hends⟩

theorem local_afterInteger : Local afterInteger := by
  have hnext (c : Char) : Local (if c = '.' then fraction else exponent) := by
    split
    · exact local_fraction
    · exact local_exponent
  refine .optional (.or (.char '.' (by decide) (by decide)) continues_exponent)
    (fun c _ => hnext c) (.const .int) ?_ ?_
  · intro c cs hc
    rw [afterInteger]
    split
    · rfl
    · rename_i hne
      rw [if_pos (by simpa [hne] using hc)]
  · intro cs h
    cases cs with
    | nil => rfl
    | cons c cs =>
      have hc := h c rfl
      simp only [Bool.or_eq_false_iff, beq_eq_false_iff_ne] at hc
      rw [afterInteger, if_neg hc.1, if_neg (not_or.mpr hc.2)]

theorem local_unsigned : Local unsigned := by
  intro kind taken rest rest' h hends
  unfold unsigned at h
  split at h
  · rename_i hdigits
    obtain ⟨rfl, rfl⟩ := Prod.mk.inj h
    have hdigits' := (digits_congr hdigits rfl hends).1
    unfold unsigned
    rw [hdigits']
  · -- A further digit stands behind the zero.
    rename_i d ds hdigits
    obtain ⟨rfl, rfl⟩ := Prod.mk.inj h
    have hmem : d ∈ digits (['0'] ++ rest) := by
      rw [hdigits]
      simp
    have hdigit : d.isDigit := List.mem_takeWhile_imp hmem
    obtain ⟨cs, rfl⟩ : ∃ cs, rest = d :: cs := by
      obtain ⟨cs, hcs⟩ : ['0', d] <+: ['0'] ++ rest :=
        (show ['0', d] <+: '0' :: d :: ds from ⟨ds, rfl⟩).trans
          (hdigits ▸ List.takeWhile_prefix _)
      exact ⟨cs, (List.cons.inj hcs).2.symm⟩
    cases hends with
    | cut hknown => cases hknown
    | alike hstart =>
      cases hstart with
      | wide cs ds hd => rw [Continues.isDigit.narrow d hd] at hdigit; cases hdigit
      | same d cs ds =>
        have hdigits' : digits (['0'] ++ d :: ds) = '0' :: d :: digits ds := by
          unfold digits
          rw [List.singleton_append, List.takeWhile_cons_of_pos (by decide),
            List.takeWhile_cons_of_pos hdigit]
        unfold unsigned
        rw [hdigits']
        rfl
  · rename_i hnil hzero
    obtain ⟨tail, htail, hr⟩ := after_eq_iff.mp h
    obtain ⟨hdigits', hafter, hafter'⟩ := digits_congr rfl htail hends
    rw [hafter] at hr
    have hr' := local_afterInteger _ _ _ _ hr hends
    unfold unsigned
    rw [hdigits', hafter']
    split
    · exact absurd (by assumption) hnil
    · exact absurd (by assumption) (hzero _ _)
    · exact after_eq_iff.mpr ⟨tail, htail, hr'⟩

theorem local_number : Local number := by
  refine .optional (.char '-' (by decide) (by decide)) (fun _ _ => local_unsigned)
    local_unsigned ?_ ?_
  · intro c cs hc
    rw [beq_iff_eq.mp hc]
    rfl
  · intro cs h
    unfold number
    split
    · exact absurd (h '-' rfl) (by decide)
    · rfl

/-! ## Strings -/

theorem throughClosing?_of_append {n seen : Nat} {body : List Char}
    (h : throughClosing? n seen (body ++ rest) = some body) :
    throughClosing? n seen body = some body := by
  generalize htext : body ++ rest = text at h
  fun_induction throughClosing? n seen text generalizing body with
  | case1 seen hseen =>
    obtain ⟨rfl, -⟩ := List.append_eq_nil_iff.mp htext
    rw [throughClosing?, if_pos hseen]
  | case2 => cases h
  | case3 seen c cs hseen =>
    obtain rfl := Option.some.inj h
    rw [throughClosing?, if_pos hseen]
  | case4 seen cs hseen ih =>
    obtain ⟨tail, htail, rfl⟩ := Option.map_eq_some_iff.mp h
    unfold throughClosing?
    rw [if_neg hseen, if_pos rfl, ih (List.cons.inj htext).2 htail]
    rfl
  | case5 => cases h
  | case6 seen hseen escaped cs hne ih =>
    obtain ⟨tail, htail, rfl⟩ := Option.map_eq_some_iff.mp h
    simp [throughClosing?, hseen, ih (List.cons.inj (List.cons.inj htext).2).2 htail]
  | case7 seen c cs hseen hquote hslash ih =>
    obtain ⟨tail, htail, rfl⟩ := Option.map_eq_some_iff.mp h
    unfold throughClosing?
    rw [if_neg hseen, if_neg hquote, if_neg hslash, ih (List.cons.inj htext).2 htail]
    rfl

theorem closedBy_congr {n : Nat} {opening body : List Char} {literal : Lexeme}
    (h : closedBy n literal opening (body ++ rest) = (kind, opening ++ body))
    (hends : EndsAlike kind rest rest') :
    closedBy n literal opening (body ++ rest') = (kind, opening ++ body) := by
  unfold closedBy at h ⊢
  cases hbody : throughClosing? n 0 (body ++ rest) with
  | some body' =>
    rw [hbody] at h
    obtain ⟨rfl, heq⟩ := Prod.mk.inj h
    obtain rfl := List.append_cancel_left heq
    rw [throughClosing?_append (throughClosing?_of_append hbody)]
  | none =>
    rw [hbody] at h
    obtain ⟨rfl, heq⟩ := Prod.mk.inj h
    obtain rfl : rest = [] := by simpa using heq
    rw [hends.eq_nil rfl, hbody, heq]

theorem local_quoted (allowBlock : Bool) : Local (quoted allowBlock) := by
  intro kind taken rest rest' h hends
  obtain ⟨body, hbody⟩ := quotes_isPrefix_quoted allowBlock (taken ++ rest)
  rw [h] at hbody
  have hquote : Continues (· == '"') := .char '"' (by decide) (by decide)
  generalize hopening : quotes (taken ++ rest) = opening at hbody
  have htaken : taken = opening ++ body := hbody.symm
  subst htaken
  rw [List.append_assoc] at h hopening ⊢
  have hopening' : quotes (opening ++ (body ++ rest')) = opening :=
    takeWhile_congr hquote hopening (hends.behind body)
  unfold quoted at h ⊢
  dsimp only at h ⊢
  rw [hopening, List.drop_left] at h
  rw [hopening', List.drop_left]
  split at h
  · exact closedBy_congr h hends
  · exact h
  · exact h
  · split at h
    · rename_i hblock
      rw [if_pos hblock]
      exact closedBy_congr h hends
    · rename_i hblock
      rw [if_neg hblock]
      exact h
  · exact h

/-! ## Objects -/

theorem local_braced (depth : Nat) : Local (braced depth) := by
  intro kind taken rest rest' h hends
  generalize htext : taken ++ rest = text at h
  fun_induction braced depth text generalizing taken with
  | case1 depth =>
    obtain ⟨rfl, rfl⟩ := Prod.mk.inj h
    obtain rfl : rest = [] := htext
    rw [hends.eq_nil rfl, List.nil_append, braced]
  | case2 depth tail literal hliteral =>
    have hquoted := local_quoted false kind taken rest rest' (htext ▸ h) hends
    obtain rfl : .unknown = kind := hliteral.symm.trans (congrArg Prod.fst h)
    cases taken with
    | nil => exact absurd (congrArg Prod.snd h) (quoted_ne_nil false tail)
    | cons c cs =>
      obtain ⟨rfl, -⟩ := List.cons.inj htext
      rw [List.cons_append] at hquoted ⊢
      rw [braced_cons, if_pos rfl, hquoted, if_pos rfl]
  | case3 depth tail literal hliteral ih =>
    obtain ⟨cs, rfl, hr⟩ := after_eq_iff.mp h
    have hwhole : literal.1 = .string ∨ literal.1 = .blockString :=
      (quoted_kind false _).resolve_left hliteral
    have hends' : EndsAlike literal.1 (cs ++ rest) (cs ++ rest') := by
      refine (hends.behind cs).of_whole ?_ ?_ <;> rcases hwhole with hl | hl <;> rw [hl] <;> decide
    rw [List.append_assoc] at htext ⊢
    have hquoted := local_quoted false literal.1 literal.2 _ _ (by rw [htext]) hends'
    rw [← htext, List.drop_left] at ih hr
    have hbraced := ih cs rfl hr
    obtain ⟨c, front, hfront⟩ := List.exists_cons_of_ne_nil (quoted_ne_nil false tail)
    have hfront : literal.2 = c :: front := hfront
    obtain ⟨tail', htail'⟩ : ∃ tail', literal.2 ++ (cs ++ rest') = '"' :: tail' := by
      rw [hfront] at htext ⊢
      obtain ⟨rfl, -⟩ := List.cons.inj htext
      exact ⟨_, rfl⟩
    rw [htail'] at hquoted ⊢
    rw [braced_cons, if_pos rfl, hquoted, if_neg hliteral, ← htail', List.drop_left, hbraced]
    rfl
  | case4 depth tail _ ih =>
    obtain ⟨cs, rfl, hr⟩ := after_eq_iff.mp h
    have := ih cs (List.cons.inj htext).2 hr
    rw [List.append_assoc, List.singleton_append, braced_cons, if_neg (by decide), if_pos rfl, this]
    rfl
  | case5 tail _ =>
    obtain ⟨rfl, rfl⟩ := Prod.mk.inj h
    rw [List.singleton_append, braced_cons, if_neg (by decide), if_neg (by decide), if_pos rfl]
  | case6 tail _ _ depth ih =>
    obtain ⟨cs, rfl, hr⟩ := after_eq_iff.mp h
    have := ih cs (List.cons.inj htext).2 hr
    rw [List.append_assoc, List.singleton_append, braced_cons, if_neg (by decide),
      if_neg (by decide), if_pos rfl]
    dsimp only
    rw [this]
    rfl
  | case7 depth c tail hquote hopen hclose ih =>
    obtain ⟨cs, rfl, hr⟩ := after_eq_iff.mp h
    have := ih cs (List.cons.inj htext).2 hr
    rw [List.append_assoc, List.singleton_append, braced_cons, if_neg hquote, if_neg hopen,
      if_neg hclose, this]
    rfl

/-! ## The brackets of a type -/

theorem openings_congr (h : openings (taken ++ rest) = taken)
    (hstart : Text.StartAlike rest rest') : openings (taken ++ rest') = taken :=
  Narrow.takeWhile_congr (.or (.char '[' (by decide)) .isIgnorable) h hstart

theorem closings_cons (lists : Nat) (c : Char) (cs : List Char) : closings lists (c :: cs) =
    if c = '!' ∨ isIgnorable c then c :: closings lists cs
    else if c = ']' then
      match lists with
      | 0 => []
      | lists + 1 => c :: closings lists cs
    else [] := closings.eq_def lists (c :: cs)

/-- No bracket or mark is taken in front of anything else, or of a bracket that closes no list. -/
theorem closings_eq_nil_iff {lists : Nat} {cs : List Char} : closings lists cs = [] ↔
    ∀ c ∈ cs.head?, (c == '!' || isIgnorable c || (c == ']' && lists != 0)) = false := by
  cases cs with
  | nil => simp [closings]
  | cons c cs =>
    rw [closings_cons]
    by_cases hc : c = '!' ∨ isIgnorable c
    · rw [if_pos hc]
      rcases hc with rfl | hc <;> simp [*]
    · rw [if_neg hc]
      by_cases hclose : c = ']' <;> cases lists <;> simp_all

theorem narrow_closing (lists : Nat) :
    Narrow fun c => c == '!' || isIgnorable c || (c == ']' && lists != 0) := by
  refine .or (.or (.char '!' (by decide)) .isIgnorable) fun c hc => ?_
  exact Bool.and_eq_false_iff.mpr (.inl (Narrow.char ']' (by decide) c hc))

theorem closings_congr {lists : Nat} (h : closings lists (taken ++ rest) = taken)
    (hstart : Text.StartAlike rest rest') : closings lists (taken ++ rest') = taken := by
  induction taken generalizing lists with
  | nil =>
    exact closings_eq_nil_iff.mpr ((narrow_closing lists).head hstart (closings_eq_nil_iff.mp h))
  | cons c cs ih =>
    rw [List.cons_append, closings_cons] at h ⊢
    by_cases hc : c = '!' ∨ isIgnorable c
    · rw [if_pos hc] at h ⊢
      rw [ih (List.cons.inj h).2]
    · rw [if_neg hc] at h ⊢
      by_cases hclose : c = ']'
      · rw [if_pos hclose] at h ⊢
        cases lists with
        | zero => cases h
        | succ lists =>
          dsimp only at h ⊢
          rw [ih (List.cons.inj h).2]
      · rw [if_neg hclose] at h
        cases h

/-! ## Lexemes -/

/-- A comment ends in front of a line break or at the end of the text. -/
theorem comment_congr (h : (taken ++ rest).takeWhile (fun d => !Text.isLineBreak d) = taken)
    (hends : EndsAlike .comment rest rest') :
    (taken ++ rest').takeWhile (fun d => !Text.isLineBreak d) = taken := by
  obtain ⟨hall, hrest⟩ := takeWhile_append_eq_left.mp h
  refine takeWhile_append_eq_left.mpr ⟨hall, ?_⟩
  cases hends with
  | cut _ hcomment => exact absurd rfl hcomment
  | alike hstart =>
    cases hstart with
    | nil => exact hrest
    | same => exact hrest
    | wide cs ds hc =>
      have hbreak := hrest _ rfl
      rw [Narrow.isLineBreak _ hc] at hbreak
      cases hbreak

/-- The first character tells how the first lexeme is read. -/
theorem classify_cons (c : Char) :
    (∃ kind, ∀ cs, classify (c :: cs) = (kind, [c])) ∨
    (∀ cs, classify (c :: cs) = (.comment, c :: cs.takeWhile fun d => !Text.isLineBreak d)) ∨
    (∀ cs, classify (c :: cs) = quoted true (c :: cs)) ∨
    (∀ cs, classify (c :: cs) = number (c :: cs)) ∨
    (∀ cs, classify (c :: cs) = (.name, (c :: cs).takeWhile isNamePart)) ∨
    (∀ cs, classify (c :: cs) = (.unknown, [])) := by
  cases hsingle : single? c with
  | some kind => exact .inl ⟨kind, classify_single hsingle⟩
  | none =>
    right
    simp only [classify, hsingle]
    by_cases hhash : c = '#'
    · exact .inl fun cs => if_pos hhash
    right
    simp only [if_neg hhash]
    by_cases hquote : c = '"'
    · exact .inl fun cs => if_pos hquote
    right
    simp only [if_neg hquote]
    by_cases hdigit : c = '-' ∨ c.isDigit
    · exact .inl fun cs => if_pos hdigit
    right
    simp only [if_neg hdigit]
    by_cases hname : isNameStart c
    · left
      intro cs
      rw [if_pos hname, List.takeWhile_cons_of_pos (isNamePart_of_isNameStart hname)]
    · exact .inr fun cs => if_neg hname

/-- **Where a lexeme ends depends on the next character at most.** -/
theorem local_classify : Local classify := by
  intro kind taken rest rest' h hends
  have hstart : Text.StartAlike (taken ++ rest) (taken ++ rest') := by
    cases hends with
    | alike hstart => exact hstart.append taken
    | cut hknown =>
      -- A lexeme of a kind takes something, so both texts start with it.
      obtain ⟨heof, hunknown⟩ := Lexeme.isControl_eq_false_iff.mp hknown
      have hne := @classify_ne_nil (taken ++ rest)
      rw [h] at hne
      obtain ⟨c, cs, rfl⟩ := List.exists_cons_of_ne_nil (hne heof hunknown)
      exact .same c _ _
  generalize htext : taken ++ rest = text at h hstart
  generalize htext' : taken ++ rest' = text' at hstart ⊢
  cases hstart with
  | nil => exact h
  | wide cs ds hc hd =>
    rw [classify_of_wide (by simp [hc])] at h
    rw [classify_of_wide (by simp [hd]), h]
  | same c cs ds =>
    rcases classify_cons c with ⟨l, hl⟩ | hl | hl | hl | hl | hl <;> rw [hl] at h ⊢
    · exact h
    · obtain ⟨rfl, rfl⟩ := Prod.mk.inj h
      have hbody := comment_congr (congrArg _ (List.cons.inj htext).2) hends
      rw [← (List.cons.inj htext').2]
      exact congrArg (fun body => (Lexeme.comment, c :: body)) hbody
    · rw [← htext] at h
      rw [← htext']
      exact local_quoted true _ _ _ _ h hends
    · rw [← htext] at h
      rw [← htext']
      exact local_number _ _ _ _ h hends
    · obtain ⟨rfl, hrun⟩ := Prod.mk.inj h
      rw [← htext] at hrun
      rw [← htext', takeWhile_congr .isNamePart hrun hends]
    · exact h

end Lexical

end GraphQLSyntax
