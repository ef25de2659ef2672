import GraphQLSyntax.Proofs.Lexical.Units
import GraphQLSyntax.Proofs.Scan.Tiling

/-!
# String literals and their quotes

What stands behind the opening quotes of a string is read stroke by stroke: a quote, a backslash
together with the character that it escapes, or any other character. The string ends with the first
quotes in a row that are as many as opened it.

* `IsStroke`, `ClosesAt`, `EndsString`: strokes, and where they close a string.
* `throughClosing?_iff`: strings are read up to there.
* `escape`: a text as it is written in a string.
* `Scanner.string_scanned`: what becomes of a run of quotes of any length, and that a text that is
  written as a string is read as one.
-/

namespace GraphQLSyntax

namespace Lexical

/-! ## Strokes -/

/-- What is read at once inside a string. -/
inductive IsStroke : List Char → Prop where
  | quote : IsStroke ['"']
  | escape (c : Char) : IsStroke ['\\', c]
  | plain {c : Char} (hc : c ≠ '"' ∧ c ≠ '\\') : IsStroke [c]

/-- The first `n` quotes in a row among the strokes end them. -/
def ClosesAt (n : Nat) (strokes : List (List Char)) : Prop :=
  List.replicate n ['"'] <:+ strokes ∧
    ∀ front, front <+: strokes → List.replicate n ['"'] <:+ front → front = strokes

/-- Behind `n` opening quotes, this text goes up to and with the closing ones. -/
def EndsString (n : Nat) (body : List Char) : Prop :=
  ∃ strokes : List (List Char), body = strokes.flatten ∧ (∀ stroke ∈ strokes, IsStroke stroke) ∧
    ClosesAt n strokes

/-- A text is strokes that close with `n` quotes in a row, `seen` of which stand in front of it. -/
def ClosesBehind (n seen : Nat) (body : List Char) : Prop :=
  ∃ strokes : List (List Char), body = strokes.flatten ∧ (∀ stroke ∈ strokes, IsStroke stroke) ∧
    ClosesAt n (List.replicate seen ['"'] ++ strokes)

section

variable {n seen : Nat} {stroke : List Char} {strokes front back : List (List Char)}

/-- A run of quotes does not reach over another stroke. -/
theorem replicate_suffix_append (hstroke : stroke ≠ ['"']) :
    List.replicate n ['"'] <:+ front ++ stroke :: back ↔ List.replicate n ['"'] <:+ back := by
  have hback : back <:+ front ++ stroke :: back :=
    (List.suffix_cons stroke back).trans (List.suffix_append _ _)
  refine ⟨fun h => ?_, fun h => h.trans hback⟩
  obtain hshort | hlong := List.suffix_or_suffix_of_suffix h hback
  · exact hshort
  -- A longer run would have the stroke in it.
  have hlonger : stroke :: back <:+ List.replicate n ['"'] ∨
      List.replicate n ['"'] <:+ stroke :: back :=
    List.suffix_or_suffix_of_suffix (List.suffix_append _ _) h
  rcases hlonger with hmem | hshort
  · exact absurd (List.eq_of_mem_replicate (hmem.subset List.mem_cons_self)) hstroke
  · rcases List.suffix_cons_iff.mp hshort with heq | hshort
    · have hmem : stroke ∈ List.replicate n ['"'] := heq ▸ List.mem_cons_self
      exact absurd (List.eq_of_mem_replicate hmem) hstroke
    · exact hshort

/-- Quotes that are too few start over behind another stroke. -/
theorem closesAt_cons (hseen : seen < n) (hstroke : stroke ≠ ['"']) :
    ClosesAt n (List.replicate seen ['"'] ++ stroke :: strokes) ↔ ClosesAt n strokes := by
  refine and_congr (replicate_suffix_append hstroke) ⟨fun h front hfront hsuffix => ?_,
    fun h front hfront hsuffix => ?_⟩
  · have hwhole := h (List.replicate seen ['"'] ++ stroke :: front)
      ((List.prefix_append_right_inj _).mpr (List.cons_prefix_cons.mpr ⟨rfl, hfront⟩))
      ((replicate_suffix_append hstroke).mpr hsuffix)
    exact (List.cons.inj (List.append_cancel_left hwhole)).2
  · obtain hshort | ⟨tail, rfl⟩ :=
      List.prefix_or_prefix_of_prefix hfront (List.prefix_append _ (stroke :: strokes))
    · have hlen := hsuffix.length_le.trans hshort.length_le
      simp only [List.length_replicate] at hlen
      omega
    · cases tail with
      | nil =>
        have hlen := hsuffix.length_le
        simp only [List.append_nil, List.length_replicate] at hlen
        omega
      | cons d tail =>
        obtain ⟨rfl, htail⟩ :=
          List.cons_prefix_cons.mp ((List.prefix_append_right_inj _).mp hfront)
        rw [h tail htail ((replicate_suffix_append hstroke).mp hsuffix)]

/-- Enough quotes close at once. -/
theorem closesAt_replicate : ClosesAt n (List.replicate n ['"'] ++ strokes) ↔ strokes = [] := by
  constructor
  · rintro ⟨-, h⟩
    have hnil := h _ (List.prefix_append _ strokes) (List.suffix_refl _)
    exact List.self_eq_append_right.mp hnil
  · rintro rfl
    rw [List.append_nil]
    refine ⟨List.suffix_refl _, fun front hfront hsuffix => ?_⟩
    exact hfront.eq_of_length_le hsuffix.length_le

theorem ne_nil_of_closesAt (hseen : seen < n)
    (h : ClosesAt n (List.replicate seen ['"'] ++ strokes)) : strokes ≠ [] := by
  rintro rfl
  have hlen := h.1.length_le
  simp only [List.append_nil, List.length_replicate] at hlen
  omega

end

/-! ## Strings up to their closing quotes -/

variable {n seen : Nat} {stroke cs body rest : List Char}

/-- How many quotes in a row stand before what follows a stroke. -/
def seenBehind (seen : Nat) (stroke : List Char) : Nat := if stroke = ['"'] then seen + 1 else 0

theorem closesAt_append_cons {strokes : List (List Char)} (hseen : seen < n) :
    ClosesAt n (List.replicate seen ['"'] ++ stroke :: strokes) ↔
      ClosesAt n (List.replicate (seenBehind seen stroke) ['"'] ++ strokes) := by
  unfold seenBehind
  split
  · rename_i hquote
    rw [hquote, List.replicate_succ', List.append_assoc]
    rfl
  · rename_i hquote
    exact closesAt_cons hseen hquote

/-- A text that closes with quotes starts with a stroke, and closes behind it. -/
theorem closesBehind_iff (hseen : seen < n) : ClosesBehind n seen body ↔
    ∃ stroke behind, body = stroke ++ behind ∧ IsStroke stroke ∧
      ClosesBehind n (seenBehind seen stroke) behind := by
  constructor
  · rintro ⟨strokes, rfl, hstrokes, hcloses⟩
    obtain ⟨stroke, strokes, rfl⟩ := List.exists_cons_of_ne_nil (ne_nil_of_closesAt hseen hcloses)
    obtain ⟨hstroke, hstrokes⟩ := List.forall_mem_cons.mp hstrokes
    exact ⟨stroke, strokes.flatten, rfl, hstroke, strokes, rfl, hstrokes,
      (closesAt_append_cons hseen).mp hcloses⟩
  · rintro ⟨stroke, -, rfl, hstroke, strokes, rfl, hstrokes, hcloses⟩
    exact ⟨stroke :: strokes, rfl, List.forall_mem_cons.mpr ⟨hstroke, hstrokes⟩,
      (closesAt_append_cons hseen).mpr hcloses⟩

theorem closesBehind_self : ClosesBehind n n body ↔ body = [] := by
  constructor
  · rintro ⟨strokes, rfl, -, hcloses⟩
    rw [closesAt_replicate.mp hcloses]
    rfl
  · rintro rfl
    exact ⟨[], rfl, List.forall_mem_nil _, closesAt_replicate.mpr rfl⟩

/-- A text starts with one stroke only. -/
theorem IsStroke.unique {other cs' : List Char} (h : IsStroke stroke) (h' : IsStroke other)
    (heq : stroke ++ cs = other ++ cs') : stroke = other ∧ cs = cs' := by
  cases h <;> cases h' <;> grind

theorem IsStroke.ne_nil (h : IsStroke stroke) : stroke ≠ [] := by
  cases h <;> exact List.cons_ne_nil _ _

/-- A text that is read stroke by stroke closes as the text behind its first stroke does. -/
theorem map_append_eq_some_iff {r : Option (List Char)} (hseen : seen < n) (h : IsStroke stroke)
    (hr : ∀ behind, r = some behind ↔
      ∃ rest, cs = behind ++ rest ∧ ClosesBehind n (seenBehind seen stroke) behind) :
    r.map (stroke ++ ·) = some body ↔
      ∃ rest, stroke ++ cs = body ++ rest ∧ ClosesBehind n seen body := by
  simp only [Option.map_eq_some_iff, hr, closesBehind_iff hseen]
  constructor
  · rintro ⟨behind, ⟨rest, rfl, hcloses⟩, rfl⟩
    exact ⟨rest, (List.append_assoc _ _ _).symm, stroke, behind, rfl, h, hcloses⟩
  · rintro ⟨rest, heq, other, behind, rfl, hother, hcloses⟩
    rw [List.append_assoc] at heq
    obtain ⟨rfl, rfl⟩ := h.unique hother heq
    exact ⟨behind, ⟨rest, rfl, hcloses⟩, rfl⟩

/-- Behind enough quotes nothing more is read. -/
theorem some_nil_eq_some_iff (hseen : seen ≤ n) (hle : n ≤ seen) :
    some [] = some body ↔ ∃ rest, cs = body ++ rest ∧ ClosesBehind n seen body := by
  obtain rfl := Nat.le_antisymm hseen hle
  rw [Option.some.injEq]
  constructor
  · rintro rfl
    exact ⟨cs, rfl, closesBehind_self.mpr rfl⟩
  · rintro ⟨-, -, h⟩
    exact (closesBehind_self.mp h).symm

/-- A string goes up to and with the first quotes in a row that close it. -/
theorem throughClosing?_eq_some_iff (hseen : seen ≤ n) : throughClosing? n seen cs = some body ↔
    ∃ rest, cs = body ++ rest ∧ ClosesBehind n seen body := by
  fun_induction throughClosing? n seen cs generalizing body with
  | case1 seen hle => exact some_nil_eq_some_iff hseen hle
  | case2 seen hlt =>
    refine iff_of_false (by rintro ⟨⟩) ?_
    rintro ⟨rest, heq, hcloses⟩
    obtain ⟨stroke, behind, rfl, hstroke, -⟩ :=
      (closesBehind_iff (Nat.lt_of_not_le hlt)).mp hcloses
    simp [hstroke.ne_nil] at heq
  | case3 seen c cs hle => exact some_nil_eq_some_iff hseen hle
  | case4 seen cs hlt ih =>
    have hlt := Nat.lt_of_not_le hlt
    exact map_append_eq_some_iff hlt .quote fun behind => ih hlt
  | case5 seen hlt hne =>
    -- A backslash that nothing follows is no stroke.
    refine iff_of_false (by rintro ⟨⟩) ?_
    rintro ⟨rest, heq, hcloses⟩
    obtain ⟨stroke, behind, rfl, hstroke, -⟩ :=
      (closesBehind_iff (Nat.lt_of_not_le hlt)).mp hcloses
    cases hstroke with
    | quote => cases heq
    | escape => cases heq
    | plain hc => exact absurd (List.cons.inj heq).1.symm hc.2
  | case6 seen hlt escaped cs hne ih =>
    exact map_append_eq_some_iff (Nat.lt_of_not_le hlt) (.escape escaped) fun behind =>
      ih (Nat.zero_le n)
  | case7 seen c cs hlt hquote hslash ih =>
    have hbehind : seenBehind seen [c] = 0 := if_neg fun h => hquote (List.cons.inj h).1
    refine map_append_eq_some_iff (Nat.lt_of_not_le hlt) (.plain ⟨hquote, hslash⟩) fun behind => ?_
    rw [hbehind]
    exact ih (Nat.zero_le n)

/-! ## String literals -/

variable {kind : Lexeme} {opening text : List Char}

/-- A literal that has its closing quotes ends with them. -/
theorem closedBy_iff (hkind : kind ≠ .unknown) : closedBy n kind opening cs = (kind, text) ↔
    ∃ body rest, cs = body ++ rest ∧ text = opening ++ body ∧ EndsString n body := by
  have hclosing (body : List Char) : throughClosing? n 0 cs = some body ↔
      ∃ rest, cs = body ++ rest ∧ EndsString n body :=
    throughClosing?_eq_some_iff (Nat.zero_le n)
  unfold closedBy
  cases h : throughClosing? n 0 cs with
  | none =>
    refine iff_of_false (fun heq => hkind (congrArg Prod.fst heq).symm) ?_
    rintro ⟨body, rest, hcs, -, hends⟩
    rw [(hclosing body).mpr ⟨rest, hcs, hends⟩] at h
    cases h
  | some body =>
    constructor
    · intro heq
      obtain ⟨rest, hcs, hends⟩ := (hclosing body).mp h
      exact ⟨body, rest, hcs, (congrArg Prod.snd heq).symm, hends⟩
    · rintro ⟨body', rest, hcs, rfl, hends⟩
      rw [(hclosing body').mpr ⟨rest, hcs, hends⟩, Option.some.injEq] at h
      rw [h]

/-- A literal is unknown where it has no closing quotes. -/
theorem closedBy_unknown_iff (hkind : kind ≠ .unknown) :
    (closedBy n kind opening cs).1 = .unknown ↔
      ¬ ∃ body rest, cs = body ++ rest ∧ EndsString n body := by
  constructor
  · rintro h ⟨body, rest, hcs, hends⟩
    rw [(closedBy_iff hkind).mpr ⟨body, rest, hcs, rfl, hends⟩] at h
    exact hkind h
  · intro hnone
    unfold closedBy
    cases h : throughClosing? n 0 cs with
    | none => rfl
    | some body =>
      obtain ⟨rest, hcs, hends⟩ := (throughClosing?_eq_some_iff (Nat.zero_le n)).mp h
      exact absurd ⟨body, rest, hcs, hends⟩ hnone

/-- An unknown literal takes the whole text. -/
theorem closedBy_unknown (hkind : kind ≠ .unknown)
    (h : (closedBy n kind opening cs).1 = .unknown) :
    (closedBy n kind opening cs).2 = opening ++ cs := by
  unfold closedBy at h ⊢
  split at h
  · exact absurd h hkind
  · rfl

/-- The opening quotes tell what is read behind them. -/
theorem classify_quotes (n : Nat) (hbody : body.head? ≠ some '"') :
    classify (List.replicate (n + 1) '"' ++ body) =
      match n + 1 with
      | 1 => closedBy 1 .string ['"'] body
      | 3 => closedBy 3 .blockString ['"', '"', '"'] body
      | 2 | 6 => (.string, List.replicate (n + 1) '"')
      | _ => (.unknown, List.replicate (n + 1) '"') := by
  have hquoted : classify (List.replicate (n + 1) '"' ++ body) =
      quoted true (List.replicate (n + 1) '"' ++ body) := by
    rw [List.replicate_succ, List.cons_append]
    rfl
  have hdrop : (List.replicate (n + 1) '"' ++ body).drop (n + 1) = body :=
    List.drop_left' List.length_replicate
  rw [hquoted, quoted, quotes_replicate _ hbody, List.length_replicate, hdrop]
  split <;> simp_all

/-! ## Texts as strings -/

theorem seenBehind_of_ne (h : stroke ≠ ['"']) : seenBehind seen stroke = 0 := if_neg h

/-- Text in which quotes are escaped does not end a string. -/
theorem Escaped.endsString (h : Escaped body) (hn : 0 < n) :
    EndsString n (body ++ List.replicate n '"') := by
  have hbehind (stroke behind : List Char) (hstroke : IsStroke stroke) (hne : stroke ≠ ['"'])
      (hends : EndsString n behind) : EndsString n (stroke ++ behind) := by
    refine (closesBehind_iff hn).mpr ⟨stroke, behind, rfl, hstroke, ?_⟩
    rwa [seenBehind_of_ne hne]
  induction h with
  | nil =>
    refine ⟨List.replicate n ['"'], ?_, fun stroke hmem => ?_, ?_⟩
    · rw [List.flatten_replicate_singleton]
      rfl
    · exact List.eq_of_mem_replicate hmem ▸ .quote
    · rw [← List.append_nil (List.replicate n _)]
      exact closesAt_replicate.mpr rfl
  | @plain c cs hc _ ih =>
    have hne : [c] ≠ ['"'] := fun h => hc.1 (List.cons.inj h).1
    exact hbehind [c] _ (.plain hc) hne ih
  | escape c _ ih => exact hbehind ['\\', c] _ (.escape c) (by simp) ih

/-- A text as it is written in a string: with a backslash before every quote and backslash. -/
def escape (cs : List Char) : List Char :=
  cs.flatMap fun c => if c = '\\' ∨ c = '"' then ['\\', c] else [c]

theorem escaped_escape (cs : List Char) : Escaped (escape cs) := by
  induction cs with
  | nil => exact .nil
  | cons c cs ih =>
    rw [escape, List.flatMap_cons]
    split
    · exact .escape c ih
    · rename_i hc
      exact .plain (not_or.mp hc).symm ih

theorem escape_ne_nil {cs : List Char} (h : cs ≠ []) : escape cs ≠ [] := by
  obtain ⟨c, cs, rfl⟩ := List.exists_cons_of_ne_nil h
  rw [escape, List.flatMap_cons]
  split <;> exact List.cons_ne_nil _ _

/-- Between three quotes, a text with something in it is read as a block string; between single
quotes, every text is read as a string. -/
theorem classify_escape (h : n = 1 ∧ kind = .string ∨ n = 3 ∧ kind = .blockString ∧ cs ≠ []) :
    classify (List.replicate n '"' ++ (escape cs ++ List.replicate n '"')) =
      (kind, List.replicate n '"' ++ (escape cs ++ List.replicate n '"')) := by
  by_cases hcs : cs = []
  · subst hcs
    obtain ⟨rfl, rfl⟩ | ⟨-, -, hne⟩ := h
    · decide
    · exact absurd rfl hne
  have hhead : (escape cs ++ List.replicate n '"').head? ≠ some '"' := by
    rw [List.head?_append_of_ne_nil _ (escape_ne_nil hcs)]
    exact (escaped_escape cs).head
  obtain ⟨rfl, rfl⟩ | ⟨rfl, rfl, -⟩ := h
  all_goals
    rw [classify_quotes _ hhead]
    exact (closedBy_iff (by decide)).mpr
      ⟨_, [], (List.append_nil _).symm, rfl, (escaped_escape cs).endsString (by decide)⟩

end Lexical

/-! ## Lexemes -/

/-- A lexeme that is a whole text is its only token in front of the end. -/
theorem Token.listOfText_of_classify {text : String} {kind : Lexeme} (hkind : kind.isControl = false)
    (h : Lexical.classify text.toList = (kind, text.toList)) :
    ∃ stop : Position, stop.byteOffset = Text.byteLength text.toList ∧
      listOfText text = [.plain kind text ⟨.start, stop⟩, .plain .eof "" ⟨stop, stop⟩] := by
  have hskip : (Cursor.ofText text).skipGap = .ofText text := by
    refine Cursor.skipGap_of_head fun c hc => Bool.eq_false_iff.mpr fun hgap => ?_
    obtain ⟨cs, hcs⟩ := List.head?_eq_some_iff.mp hc
    have hunknown := Lexical.classify_gap hgap cs
    rw [← hcs, show (Cursor.ofText text).rest = text.toList from rfl, h] at hunknown
    obtain ⟨rfl, -⟩ := Prod.mk.inj hunknown
    cases hkind
  have hadvance : (Scanner.ofText text).advance =
      ⟨(Cursor.ofText text).consume text.toList, kind, .start, text.toList⟩ := by
    rw [Scanner.advance_eq, show (Scanner.ofText text).cursor = .ofText text from rfl, hskip,
      Scanner.ofCursor, show (Cursor.ofText text).rest = text.toList from rfl, h]
    rfl
  generalize hk : (Cursor.ofText text).consume text.toList = k at hadvance
  have hrest : k.rest = [] :=
    hk ▸ Cursor.rest_consume_of_append (List.append_nil text.toList).symm
  have hoffset : k.position.byteOffset = 0 + Text.byteLength text.toList :=
    hk ▸ Cursor.byteOffset_consume (.ofText text) text.toList
  have hend : (Scanner.ofText text).advance.advance = ⟨k, .eof, k.position, []⟩ := by
    have hgap : k.skipGap = k := Cursor.skipGap_of_head (by rw [hrest]; rintro c ⟨⟩)
    rw [hadvance, Scanner.advance_eq, show (Scanner.mk k _ _ _).cursor = k from rfl, hgap,
      Scanner.ofCursor, hrest]
    rfl
  refine ⟨k.position, hoffset.trans (Nat.zero_add _), ?_⟩
  have hunknown : kind ≠ .unknown := (Lexeme.isControl_eq_false_iff.mp hkind).2
  have hkind' : (Scanner.ofText text).advance.lexeme.isControl = false := by rw [hadvance, hkind]
  have hcontrol : (Scanner.ofText text).advance.advance.lexeme.isControl = true := by rw [hend]; rfl
  rw [listOfText, TokenStream.ofText, TokenStream.toList_unfinished, hkind',
    TokenStream.toList_unfinished, hcontrol, TokenStream.toList_finished, hend, hadvance]
  simp only [Scanner.shown, if_neg hunknown, reduceCtorEq, if_false, Scanner.token, Scanner.span,
    String.ofList_toList, String.ofList_nil]

open Lexical

/-- How long the run of quotes is that starts a lexeme tells what is read. A single quote and three
quotes open a string and a block string, which go up to as many quotes in a row, or are unknown up
to the end where these never come. With all quotes and backslashes escaped, every text between such
quotes is read as the one token of its kind. -/
theorem Scanner.string_scanned :
    (∀ (s : Scanner) (n : Nat) (body : List Char), n ≠ 0 → body.head? ≠ some '"' →
      s.cursor.skipGap.rest = List.replicate n '"' ++ body →
      (n = 2 ∨ n = 6 → s.advance.lexeme = .string ∧ s.advance.text = List.replicate n '"') ∧
      (∀ kind, n = 1 ∧ kind = .string ∨ n = 3 ∧ kind = .blockString →
        (∀ text, s.advance.lexeme = kind ∧ s.advance.text = text ↔ ∃ front rest,
          body = front ++ rest ∧ text = List.replicate n '"' ++ front ∧ EndsString n front) ∧
        (s.advance.lexeme = .unknown ↔ ¬ ∃ front rest, body = front ++ rest ∧
          EndsString n front) ∧
        (s.advance.lexeme = .unknown → s.advance.text = List.replicate n '"' ++ body)) ∧
      (n ∉ [1, 2, 3, 6] → s.advance.lexeme = .unknown ∧
        s.advance.text = List.replicate n '"') ∧
      s.advance.start = s.cursor.skipGap.position ∧
      s.advance.cursor = s.cursor.skipGap.consume s.advance.text) ∧
    (∀ (c : String) (n : Nat) (kind : Lexeme),
      n = 1 ∧ kind = .string ∨ n = 3 ∧ kind = .blockString ∧ c ≠ "" →
      let text := String.ofList
        (List.replicate n '"' ++ (escape c.toList ++ List.replicate n '"'))
      ∃ stop : Position, stop.byteOffset = Text.byteLength text.toList ∧
        Token.listOfText text = [.plain kind text ⟨.start, stop⟩, .plain .eof "" ⟨stop, stop⟩]) := by
  constructor
  · intro s n body hn hbody hrest
    obtain ⟨m, rfl⟩ := Nat.exists_eq_succ_of_ne_zero hn
    have hclassify := classify_quotes m hbody
    rw [← hrest] at hclassify
    have hlexeme : s.advance.lexeme = (classify s.cursor.skipGap.rest).1 := rfl
    have htext : s.advance.text = (classify s.cursor.skipGap.rest).2 := rfl
    refine ⟨fun heven => ?_, fun kind hkind => ?_, fun hother => ?_, rfl, rfl⟩
    · obtain rfl | rfl : m = 1 ∨ m = 5 := by omega
      all_goals exact Prod.mk.inj hclassify
    · have hquotes : classify s.cursor.skipGap.rest =
          closedBy (m + 1) kind (List.replicate (m + 1) '"') body := by
        obtain ⟨hm, rfl⟩ | ⟨hm, rfl⟩ := hkind
        all_goals
          cases hm
          exact hclassify
      have hknown : kind ≠ .unknown := by
        obtain ⟨-, rfl⟩ | ⟨-, rfl⟩ := hkind <;> decide
      rw [hlexeme, htext, hquotes]
      refine ⟨fun text => ?_, closedBy_unknown_iff hknown, closedBy_unknown hknown⟩
      rw [← closedBy_iff hknown, Prod.ext_iff]
    · have hunknown : classify s.cursor.skipGap.rest =
          (.unknown, List.replicate (m + 1) '"') := by
        rw [hclassify]
        split <;> simp_all
      exact Prod.mk.inj hunknown
  · intro c n kind hkind text
    refine Token.listOfText_of_classify ?_ ?_
    · obtain ⟨-, rfl⟩ | ⟨-, rfl, -⟩ := hkind <;> rfl
    · rw [String.toList_ofList]
      refine classify_escape (hkind.imp_right (.imp_right (.imp_right fun hne hnil => hne ?_)))
      exact String.toList_inj.mp hnil

/-- A block string that ends behind an escaped quote, and a line break as it is written. -/
theorem Scanner.string_scanned_escape :
    ((Scanner.ofText " \"\"\"a\\\"\"\"\"b").advance.lexeme = .blockString ∧
      (Scanner.ofText " \"\"\"a\\\"\"\"\"b").advance.text = "\"\"\"a\\\"\"\"\"".toList) ∧
    ∃ stop : Position, stop.byteOffset = 5 ∧ Token.listOfText "\"\n\u00e9\"" =
      [.plain .string "\"\n\u00e9\"" ⟨.start, stop⟩, .plain .eof "" ⟨stop, stop⟩] := by
  have hends : EndsString 3 (['a', '\\', '"'] ++ List.replicate 3 '"') :=
    (Escaped.plain (by decide) (.escape '"' .nil)).endsString (by decide)
  refine ⟨((string_scanned.1 (.ofText " \"\"\"a\\\"\"\"\"b") 3 "a\\\"\"\"\"b".toList (by decide)
    (by decide) (by decide)).2.1 .blockString (.inr ⟨rfl, rfl⟩)).1 _ |>.mpr
    ⟨_, ['b'], by decide, by decide, hends⟩, ?_⟩
  exact string_scanned.2 "\n\u00e9" 1 .string (.inl ⟨rfl, rfl⟩)

end GraphQLSyntax
