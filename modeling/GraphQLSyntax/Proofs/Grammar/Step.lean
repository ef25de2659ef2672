import GraphQLSyntax.Grammar.Document
import GraphQLSyntax.Proofs.Grammar.Laid
import GraphQLSyntax.Proofs.Lexical.Literal

/-!
# One terminal

What the readers of a single terminal do, where they stand at a lexeme behind a cursor.

* `Reading.ofCursor`: a reading is determined by the cursor behind all that was read.
* `Cursor.laidAt_lexeme`, `Cursor.laidAt_word`: there is a terminal at every lexeme.
* `Reader.take_eq_ok`, `Reader.advance_eq_ok`: reading a lexeme.
* `Reader.sigilName_eq_ok`, `Reader.spreadDots_eq_ok`, `Reader.object_eq_ok`: reading the other
  terminals.
* `Reader.definitions`: reading one definition after the other.
* `Reader.whole_eq_ok`, `Document.parse_eq_ok`: reading a whole text.
-/

namespace GraphQLSyntax

/-- Where the reading stands once all before `k` has been read. -/
def Reading.ofCursor (k : Cursor) : Reading := ⟨.ofCursor k.skipTrivia, k.position⟩

/-- The keyword at the next lexeme, where it is one of an executable document. -/
def Cursor.keyword (k : Cursor) : Lexeme := (Scanner.ofCursor k.skipTrivia).keyword .execution

@[simp] theorem Reading.lexeme_ofCursor (k : Cursor) :
    (Reading.ofCursor k).scanner.lexeme = k.ahead := rfl

@[simp] theorem Reading.keyword_ofCursor (k : Cursor) :
    (Reading.ofCursor k).scanner.keyword .execution = k.keyword := rfl

/-! ## The name behind a sigil -/

namespace Scanner

variable {s : Scanner} {name : List Char}

theorem sigilName_eq (h : Lexical.classify s.cursor.rest = (.name, name)) :
    s.sigilName = ⟨s.cursor.consume name, .name, s.start, name⟩ := by
  obtain ⟨c, rest, hrest, hc⟩ := Lexical.classify_name_iff.mp (congrArg Prod.fst h)
  rw [hrest, Lexical.classify_name hc, Prod.mk.injEq] at h
  have hname := h.2
  rw [sigilName, hrest]
  dsimp only
  rw [if_pos hc, List.takeWhile_cons_of_pos (Lexical.isNamePart_of_isNameStart hc), hname]

theorem classify_of_sigilName (h : s.sigilName.lexeme = .name) :
    (Lexical.classify s.cursor.rest).1 = .name := by
  unfold sigilName at h
  split at h
  · cases h
  · rename_i c rest hrest
    rw [hrest]
    split at h
    · rename_i hc
      rw [Lexical.classify_name hc]
    · cases h

end Scanner

/-! ## The terminal at a lexeme -/

/-- Two characters are sigils. -/
theorem Lexical.sigil_of_single? {c : Char} {kind : Lexeme} (hc : single? c = some kind)
    (hkind : kind = .dollar ∨ kind = .atSign) : c = '$' ∨ c = '@' := by
  unfold single? at hc
  split at hc <;> rcases hkind with rfl | rfl <;> simp_all

section

variable {k : Cursor} {kind : Lexeme} {text : String}

@[simp] theorem Terminal.chars_single (kind : Lexeme) (c : Char) :
    (lexeme kind (String.singleton c)).chars = [c] := String.toList_singleton c

theorem Terminal.LaidAt.scanner_eq (h : (Terminal.lexeme kind text).LaidAt k) :
    Scanner.ofCursor k.skipTrivia =
      ⟨k.behind (.lexeme kind text), kind, k.skipTrivia.position, text.toList⟩ := by
  have hclassify := h.stands.1
  have hrest := h.rest_eq
  rw [chars] at hrest
  rw [← hrest] at hclassify
  rw [Scanner.ofCursor, hclassify, Cursor.behind, chars]

theorem Terminal.LaidAt.cursor_eq (h : (Terminal.lexeme kind text).LaidAt k) :
    (Reading.ofCursor k).scanner.cursor = k.behind (.lexeme kind text) :=
  congrArg Scanner.cursor h.scanner_eq

theorem Terminal.LaidAt.token_eq (h : (Terminal.lexeme kind text).LaidAt k) :
    (Reading.ofCursor k).scanner.token = .plain kind text (k.spanOf (.lexeme kind text)) := by
  rw [Reading.ofCursor, h.scanner_eq, Scanner.token, String.ofList_toList]
  rfl

theorem Terminal.LaidAt.keyword_eq (h : (Terminal.lexeme .name text).LaidAt k) :
    k.keyword = KeywordTable.execution.classify text := by
  rw [Cursor.keyword, h.scanner_eq, Scanner.keyword, if_pos rfl, String.ofList_toList]

namespace Cursor

/-- Only a name is read as a keyword. -/
theorem ahead_eq_name_of_keyword (h : k.keyword = kind) (hkind : kind.spelling? ≠ none) :
    k.ahead = .name := by
  rw [keyword, Scanner.keyword] at h
  split at h
  · assumption
  · subst h
    exact absurd (Lexical.spelling?_classify _) hkind

theorem keyword_eq_ahead (h : k.ahead ≠ .name) : k.keyword = k.ahead := if_neg h

/-- Behind a terminal, seen from behind its first character. -/
theorem behind_cons {t : Terminal} {c : Char} {tail : List Char} (h : t.chars = c :: tail)
    (k : Cursor) (kind : Lexeme) :
    k.behind t = (k.behind (.lexeme kind (String.singleton c))).consume tail := by
  rw [behind, behind, Terminal.chars_single, ← consume_append, h]
  rfl

/-- A terminal that starts with a lexeme of one character stands where that lexeme stands and the
other characters follow it. -/
theorem laidAt_cons_iff {t : Terminal} {c : Char} {tail : List Char} (h : t.chars = c :: tail)
    (hc : Lexical.single? c = some kind) (hmark : t.isMark = false) : t.LaidAt k ↔
      (Terminal.lexeme kind (String.singleton c)).LaidAt k ∧
        (k.behind (.lexeme kind (String.singleton c))).rest = tail ++ (k.behind t).rest ∧
        t.Stands (k.behind t).rest := by
  obtain ⟨hcomment, -, hcontrol⟩ := Lexical.single?_kind hc
  constructor
  · intro hlaid
    have hrest : k.skipTrivia.rest = (Terminal.lexeme kind (String.singleton c)).chars ++
        (tail ++ (k.behind t).rest) := by
      rw [hlaid.rest_eq, Terminal.chars_single, h]
      rfl
    have hbehind : (k.behind (.lexeme kind (String.singleton c))).rest =
        tail ++ (k.behind t).rest := by
      rw [behind, rest_consume_of_append hrest]
    refine ⟨⟨by rw [hbehind, hrest], ⟨?_, hcontrol, hcomment⟩, ?_⟩, hbehind, hlaid.stands⟩
    · rw [String.toList_singleton]
      exact Lexical.classify_single hc _
    · intro hmark
      cases hmark
  · intro hstand
    obtain ⟨hlaid, hbehind, hstands⟩ := hstand
    refine ⟨?_, hstands, fun hmark' => ?_⟩
    · rw [hlaid.rest_eq, hbehind, Terminal.chars_single, h]
      rfl
    · rw [hmark] at hmark'
      cases hmark'

/-- Every lexeme is a terminal. -/
theorem laidAt_lexeme (h : k.ahead.isControl = false) :
    ∃ text, (Terminal.lexeme k.ahead text).LaidAt k := by
  refine ⟨String.ofList (Lexical.classify k.skipTrivia.rest).2, ?_⟩
  have hrest : k.skipTrivia.rest = (Lexical.classify k.skipTrivia.rest).2 ++
      (k.skipTrivia.consume (Lexical.classify k.skipTrivia.rest).2).rest := by
    rw [rest_consume]
    exact (List.prefix_iff_eq_append.mp (Lexical.classify_isPrefix k.skipTrivia.rest)).symm
  refine ⟨?_, ⟨?_, h, lexeme_skipTrivia_ne_comment k⟩, ?_⟩
  · rw [behind, Terminal.chars, String.toList_ofList]
    exact hrest
  · rw [behind, Terminal.chars, String.toList_ofList, ← hrest]
    rfl
  · intro hmark
    cases hmark

/-- Every lexeme of one character is that character. -/
theorem laidAt_single (h : k.ahead = kind)
    (hkind : kind.isStructure ∨ kind = .dollar ∨ kind = .atSign) :
    ∃ c, Lexical.single? c = some kind ∧ (Terminal.lexeme kind (String.singleton c)).LaidAt k := by
  obtain ⟨c, rest, hrest, hc⟩ := Lexical.single?_of_classify h hkind
  obtain ⟨text, hlaid⟩ := k.laidAt_lexeme (by
    rw [h]
    rcases hkind with hkind | rfl | rfl
    · exact Lexeme.isControl_of_isStructure hkind
    · rfl
    · rfl)
  have hscanner := congrArg Scanner.text hlaid.scanner_eq
  rw [Scanner.ofCursor, hrest, Lexical.classify_single hc] at hscanner
  have hchars : [c] = text.toList := hscanner
  have htext : text = String.singleton c := by
    rw [← String.ofList_toList (s := text), ← hchars]
    rfl
  subst htext
  exact ⟨c, hc, h ▸ hlaid⟩

/-- Every punctuator is a terminal. -/
theorem laidAt_word {c : Char} (h : k.ahead = kind) (hkind : kind.punctuator? = some c) :
    (Terminal.lexeme kind (String.singleton c)).LaidAt k := by
  obtain ⟨d, hd, hlaid⟩ := laidAt_single h (.inl (Lexeme.isStructure_of_punctuator hkind))
  rwa [Lexical.single?_eq_punctuator hd hkind] at hlaid

/-- A sigil with its name stands where the sigil is a lexeme and a name touches it. -/
theorem laidAt_sigilName_iff {c : Char} {name : String} (hc : Lexical.single? c = some kind)
    (hkind : kind = .dollar ∨ kind = .atSign) :
    (Terminal.sigilName c name).LaidAt k ↔ (Terminal.lexeme kind (String.singleton c)).LaidAt k ∧
      Lexical.classify (k.behind (.lexeme kind (String.singleton c))).rest =
        (.name, name.toList) := by
  have hsigil := Lexical.sigil_of_single? hc hkind
  rw [laidAt_cons_iff rfl hc rfl, Terminal.Stands]
  refine and_congr_right fun _ => ⟨fun h => ?_, fun hname => ?_⟩
  · obtain ⟨hrest, -, hname⟩ := h
    rw [hrest, hname]
  · have htaken := Lexical.classify_isPrefix (k.behind (.lexeme kind (String.singleton c))).rest
    rw [hname, List.prefix_iff_eq_append] at htaken
    have hrest : (k.behind (.lexeme kind (String.singleton c))).rest =
        name.toList ++ (k.behind (.sigilName c name)).rest := by
      rw [behind_cons (t := .sigilName c name) rfl k kind, rest_consume, htaken]
    exact ⟨hrest, hsigil, hrest ▸ hname⟩

/-- A spread stands where a dot is a lexeme and exactly two dots follow it. -/
theorem laidAt_spread_iff : Terminal.spread.LaidAt k ↔
    (Terminal.lexeme .period (String.singleton '.')).LaidAt k ∧
      ∃ rest, (k.behind (.lexeme .period (String.singleton '.'))).rest = '.' :: '.' :: rest ∧
        rest.head? ≠ some '.' := by
  rw [laidAt_cons_iff (c := '.') rfl rfl rfl, Terminal.Stands]
  refine and_congr_right fun _ => ⟨fun h => ⟨_, h.1, h.2⟩, fun h => ?_⟩
  · obtain ⟨rest, hrest, hdots⟩ := h
    have hbehind : (k.behind .spread).rest = rest := by
      rw [behind_cons (c := '.') rfl k .period, rest_consume, hrest]
      rfl
    rw [hbehind]
    exact ⟨hrest, hdots⟩

/-- An object literal stands where a brace is a lexeme and the text behind it is balanced. -/
theorem laidAt_object_iff : (Terminal.object text).LaidAt k ↔
    (Terminal.lexeme .curlyOpen (String.singleton '{')).LaidAt k ∧
      ∃ body, text.toList = '{' :: body ∧
        Lexical.braced 0 (k.behind (.lexeme .curlyOpen (String.singleton '{'))).rest =
          (.object, body) := by
  have hobject {body : List Char} (htext : text.toList = '{' :: body) :=
    laidAt_cons_iff (k := k) (t := .object text) (c := '{') htext rfl rfl
  constructor
  · intro hlaid
    obtain ⟨body, htext, hbraced⟩ := hlaid.stands
    obtain ⟨hopen, hrest, -⟩ := (hobject htext).mp hlaid
    exact ⟨hopen, body, htext, by rw [hrest, hbraced]⟩
  · intro h
    obtain ⟨hopen, body, htext, hbraced⟩ := h
    have htaken :=
      Lexical.braced_isPrefix 0 (k.behind (.lexeme .curlyOpen (String.singleton '{'))).rest
    rw [hbraced, List.prefix_iff_eq_append] at htaken
    have hrest : (k.behind (.lexeme .curlyOpen (String.singleton '{'))).rest =
        body ++ (k.behind (.object text)).rest := by
      rw [behind_cons (t := .object text) htext k .curlyOpen, rest_consume, htaken]
    exact (hobject htext).mpr ⟨hopen, hrest, body, htext, hrest ▸ hbraced⟩

/-- A terminal that stands at `k` is read, and the reading goes on at `r`. -/
structure Passes (k : Cursor) (t : Terminal) (r : Reading) : Prop where
  laid : t.LaidAt k
  ahead : (k.behind t).ahead ≠ .unknown
  reading : r = .ofCursor (k.behind t)

end Cursor

end

/-! ## Readers of one terminal -/

namespace Reader

variable {k : Cursor} {kind : Lexeme} {r r' : Reading} {t : Token} {u : Unit}

theorem advanceAfter_eq_ok {stop : Position} : advanceAfter stop r = .ok (u, r') ↔
    r.scanner.cursor.ahead ≠ .unknown ∧ r' = ⟨.ofCursor r.scanner.cursor.skipTrivia, stop⟩ := by
  unfold advanceAfter
  dsimp only
  rw [Scanner.advancePastComments_eq, ← Cursor.ahead]
  split
  · rename_i h
    simp [h]
  · rename_i h
    simp [h, eq_comm]

theorem advance_eq_ok : advance r = .ok (u, r') ↔
    r.scanner.cursor.ahead ≠ .unknown ∧ r' = .ofCursor r.scanner.cursor := advanceAfter_eq_ok

theorem take_eq_ok : take r = .ok (t, r') ↔
    r.scanner.cursor.ahead ≠ .unknown ∧ t = r.scanner.token ∧ r' = .ofCursor r.scanner.cursor := by
  unfold take
  rw [token_bind, bind_eq_ok]
  constructor
  · rintro ⟨u, r₁, hadvance, hpure⟩
    obtain ⟨hahead, rfl⟩ := advance_eq_ok.mp hadvance
    cases hpure
    exact ⟨hahead, rfl, rfl⟩
  · rintro ⟨hahead, rfl, rfl⟩
    exact ⟨(), _, advance_eq_ok.mpr ⟨hahead, rfl⟩, rfl⟩

/-- Reading a lexeme reads the terminal that it is. -/
theorem take_ofCursor_eq_ok (h : k.ahead = kind) (hkind : kind.isControl = false) :
    take (.ofCursor k) = .ok (t, r') ↔ ∃ text, k.Passes (.lexeme kind text) r' ∧
      t = .plain kind text (k.spanOf (.lexeme kind text)) := by
  subst h
  rw [take_eq_ok]
  constructor
  · rintro ⟨hahead, rfl, rfl⟩
    obtain ⟨text, hlaid⟩ := k.laidAt_lexeme hkind
    rw [hlaid.cursor_eq] at hahead ⊢
    exact ⟨text, ⟨hlaid, hahead, rfl⟩, hlaid.token_eq⟩
  · rintro ⟨text, ⟨hlaid, hahead, rfl⟩, rfl⟩
    rw [hlaid.cursor_eq]
    exact ⟨hahead, hlaid.token_eq.symm, rfl⟩

theorem expect_eq_ok {expected : List String} (hkind : kind.isControl = false) :
    expect kind expected (.ofCursor k) = .ok (t, r') ↔ ∃ text, k.Passes (.lexeme kind text) r' ∧
      t = .plain kind text (k.spanOf (.lexeme kind text)) := by
  unfold expect
  rw [lexeme_bind]
  split
  · rename_i h
    exact take_ofCursor_eq_ok h hkind
  · rename_i h
    refine iff_of_false (by rintro ⟨⟩) ?_
    rintro ⟨text, ⟨hlaid, -, -⟩, -⟩
    exact h hlaid.ahead

/-- Going on from a punctuator passes it. -/
theorem advance_ofCursor_eq_ok {c : Char} (h : k.ahead = kind) (hkind : kind.punctuator? = some c) :
    advance (.ofCursor k) = .ok (u, r') ↔
      k.Passes (.lexeme kind (String.singleton c)) r' := by
  have hlaid := k.laidAt_word h hkind
  rw [advance_eq_ok, hlaid.cursor_eq]
  constructor
  · rintro ⟨hahead, rfl⟩
    exact ⟨hlaid, hahead, rfl⟩
  · rintro ⟨-, hahead, rfl⟩
    exact ⟨hahead, rfl⟩

/-- Reading a name behind its sigil reads both as one terminal. -/
theorem sigilName_eq_ok {c : Char} {expected : List String} {what : String}
    (hc : Lexical.single? c = some kind) (hkind : kind = .dollar ∨ kind = .atSign) :
    sigilName kind expected what (.ofCursor k) = .ok (t, r') ↔
      ∃ name, k.Passes (.sigilName c name) r' ∧
        t = .plain .name name (k.spanOf (.sigilName c name)) := by
  -- Where the sigil is the next lexeme, all comes down to what follows it.
  have htouching (hlaid : (Terminal.lexeme kind (String.singleton c)).LaidAt k) (name : String)
      (hname : Lexical.classify (k.behind (.lexeme kind (String.singleton c))).rest =
        (.name, name.toList)) :
      (Reading.ofCursor k).scanner.sigilName =
        ⟨k.behind (.sigilName c name), .name, k.skipTrivia.position, name.toList⟩ := by
    rw [Scanner.sigilName_eq ((congrArg (Lexical.classify ·.rest) hlaid.cursor_eq).trans hname),
      hlaid.cursor_eq, ← Cursor.behind_cons (t := .sigilName c name) rfl k kind]
    rfl
  unfold sigilName
  split
  · rename_i hsigil
    obtain ⟨d, hd, hlaid⟩ := Cursor.laidAt_single hsigil (.inr hkind)
    obtain rfl : c = d := Lexical.single?_inj hc hd
    dsimp only
    split
    · rename_i hscanner
      have hkindName := Scanner.classify_of_sigilName hscanner
      rw [hlaid.cursor_eq] at hkindName
      obtain ⟨name, hname⟩ := Lexical.exists_eq_name hkindName
      rw [take_eq_ok]
      constructor
      · rintro ⟨hahead, rfl, rfl⟩
        rw [htouching hlaid name hname] at hahead ⊢
        refine ⟨name, ⟨(Cursor.laidAt_sigilName_iff hc hkind).mpr ⟨hlaid, hname⟩, hahead, rfl⟩, ?_⟩
        rw [Scanner.token, String.ofList_toList]
        rfl
      · rintro ⟨name, ⟨hlaid', hahead, rfl⟩, rfl⟩
        rw [htouching hlaid name ((Cursor.laidAt_sigilName_iff hc hkind).mp hlaid').2]
        refine ⟨hahead, ?_, rfl⟩
        rw [Scanner.token, String.ofList_toList]
        rfl
    · rename_i hscanner
      refine iff_of_false (by rintro ⟨⟩) ?_
      rintro ⟨name, ⟨hlaid', -, -⟩, -⟩
      rw [htouching hlaid name ((Cursor.laidAt_sigilName_iff hc hkind).mp hlaid').2] at hscanner
      exact hscanner rfl
  · rename_i hsigil
    refine iff_of_false (by rintro ⟨⟩) ?_
    rintro ⟨name, ⟨hlaid, -, -⟩, -⟩
    exact hsigil ((Cursor.laidAt_sigilName_iff hc hkind).mp hlaid).1.ahead

/-- Reading the dots of a spread reads all three as one terminal. -/
theorem spreadDots_eq_ok : spreadDots (.ofCursor k) = .ok (u, r') ↔ k.Passes .spread r' := by
  unfold spreadDots
  split
  · rename_i hperiod
    have hlaid := k.laidAt_word hperiod rfl
    split
    · rename_i s hs
      obtain ⟨rest, hrest, hdots, rfl⟩ := Scanner.spreadTail?_eq_some.mp hs
      rw [hlaid.cursor_eq] at hrest
      rw [advance_eq_ok]
      dsimp only
      rw [hlaid.cursor_eq, ← Cursor.behind_cons (t := .spread) rfl k .period]
      constructor
      · rintro ⟨hahead, rfl⟩
        exact ⟨Cursor.laidAt_spread_iff.mpr ⟨hlaid, rest, hrest, hdots⟩, hahead, rfl⟩
      · rintro ⟨-, hahead, rfl⟩
        exact ⟨hahead, rfl⟩
    · rename_i hs
      refine iff_of_false (by rintro ⟨⟩) ?_
      rintro ⟨hspread, -, -⟩
      obtain ⟨-, rest, hrest, hdots⟩ := Cursor.laidAt_spread_iff.mp hspread
      rw [← hlaid.cursor_eq] at hrest
      rw [Scanner.spreadTail?_eq_some.mpr ⟨rest, hrest, hdots, rfl⟩] at hs
      cases hs
  · rename_i hperiod
    refine iff_of_false (by rintro ⟨⟩) ?_
    rintro ⟨hlaid, -, -⟩
    exact hperiod hlaid.ahead

/-- Reading an object literal reads all of it as one terminal. -/
theorem object_eq_ok {v : Value} (h : k.ahead = .curlyOpen) :
    object (.ofCursor k) = .ok (v, r') ↔ ∃ text, k.Passes (.object text) r' ∧
      v = .scalar (.literal .object text (k.spanOf (.object text))) := by
  have hlaid := k.laidAt_word h rfl
  have hcursor := hlaid.cursor_eq
  have htext : (Reading.ofCursor k).scanner.text = ['{'] := by
    rw [Reading.ofCursor, hlaid.scanner_eq]
    exact String.toList_singleton _
  unfold object
  dsimp only [Scanner.objectLiteral]
  rw [hcursor, htext]
  split
  · rename_i hunknown
    refine iff_of_false (by rintro ⟨⟩) ?_
    rintro ⟨text, ⟨hobject, -, -⟩, -⟩
    obtain ⟨-, body, -, hbraced⟩ := Cursor.laidAt_object_iff.mp hobject
    rw [hbraced] at hunknown
    cases hunknown
  · rename_i hknown
    obtain ⟨body, hbraced⟩ := Lexical.exists_eq_object hknown
    rw [hbraced, literal, bind_eq_ok]
    constructor
    · rintro ⟨t, r₁, htake, hpure⟩
      obtain ⟨hahead, rfl, rfl⟩ := take_eq_ok.mp htake
      cases hpure
      have hbehind := Cursor.behind_cons (t := .object (String.ofList ('{' :: body)))
        String.toList_ofList k .curlyOpen
      rw [← hbehind] at hahead
      refine ⟨String.ofList ('{' :: body), ⟨?_, hahead, ?_⟩, ?_⟩
      · exact Cursor.laidAt_object_iff.mpr ⟨hlaid, body, String.toList_ofList, hbraced⟩
      · rw [hbehind]
      · rw [Cursor.spanOf, hbehind]
        rfl
    · rintro ⟨text, ⟨hobject, hahead, rfl⟩, rfl⟩
      obtain ⟨-, body', htext', hbraced'⟩ := Cursor.laidAt_object_iff.mp hobject
      rw [hbraced, Prod.mk.injEq] at hbraced'
      obtain rfl : body = body' := hbraced'.2
      have hbehind := Cursor.behind_cons (t := .object text) htext' k .curlyOpen
      rw [hbehind] at hahead ⊢
      refine ⟨_, _, take_eq_ok.mpr ⟨hahead, rfl, rfl⟩, ?_⟩
      rw [pure_apply, Cursor.spanOf, hbehind, ← String.ofList_toList (s := text), htext']
      rfl

end Reader

/-! ## Whole texts -/

theorem Reader.endOfInput_eq_ok {r r' : Reading} {u : Unit} :
    endOfInput r = .ok (u, r') ↔ r.scanner.lexeme = .eof ∧ r' = r := by
  unfold endOfInput
  rw [lexeme_bind]
  split
  · rename_i h
    rw [pure_apply, Except.ok.injEq, Prod.mk.injEq]
    exact ⟨fun hr => ⟨h, hr.2.symm⟩, fun hr => ⟨rfl, hr.2.symm⟩⟩
  · rename_i h
    exact iff_of_false (by rintro ⟨⟩) fun hr => h hr.1

/-- A text as a whole is read where its part is read up to the end. -/
theorem Reader.whole_eq_ok {α : Type} {part : Reader α} {text : String} {a : α} {r : Reading} :
    whole part (.ofText text) = .ok (a, r) ↔ (Cursor.ofText text).ahead ≠ .unknown ∧
      part (.ofCursor (.ofText text)) = .ok (a, r) ∧ r.scanner.lexeme = .eof := by
  unfold whole
  rw [bind_eq_ok]
  constructor
  · rintro ⟨u, r₁, hadvance, hr⟩
    obtain ⟨hahead, rfl⟩ := advance_eq_ok.mp hadvance
    obtain ⟨b, r₂, hpart, hr⟩ := bind_eq_ok.mp hr
    obtain ⟨v, r₃, hend, hpure⟩ := bind_eq_ok.mp hr
    obtain ⟨heof, rfl⟩ := endOfInput_eq_ok.mp hend
    cases hpure
    exact ⟨hahead, hpart, heof⟩
  · rintro ⟨hahead, hpart, heof⟩
    refine ⟨(), _, advance_eq_ok.mpr ⟨hahead, rfl⟩, bind_eq_ok.mpr ⟨a, r, hpart, ?_⟩⟩
    exact bind_eq_ok.mpr ⟨(), r, endOfInput_eq_ok.mpr ⟨heof, rfl⟩, rfl⟩

theorem TypeRef.parse_eq_ok {text : String} {x : TypeRef} : TypeRef.parse text = .ok x ↔
    ∃ r, Reader.whole Reader.typeRef (.ofText text) = .ok (x, r) := by
  unfold parse
  cases Reader.whole Reader.typeRef (.ofText text) with
  | error e => simp [Except.map]
  | ok q => simp [Except.map, Prod.ext_iff]

theorem Value.parse_eq_ok {text : String} {v : Value} : Value.parse text = .ok v ↔
    ∃ r, Reader.whole Reader.value (.ofText text) = .ok (v, r) := by
  unfold parse
  cases Reader.whole Reader.value (.ofText text) with
  | error e => simp [Except.map]
  | ok q => simp [Except.map, Prod.ext_iff]

/-- Reads the definitions of a document. -/
def Reader.definitions : Reader (List Definition) :=
  Production.repeatWhile ⟨Reader.definition, Reader.advances_definition⟩
    fun s => .ok (s.lexeme ≠ .eof)

namespace Reader

variable {r : Reading}

/-- At the end of a text there are no more definitions. -/
theorem definitions_of_end (h : r.scanner.lexeme = .eof) : definitions r = .ok ([], r) :=
  Production.repeatWhile_of_end (congrArg Except.ok (decide_eq_false fun hne => hne h))

/-- Everywhere else there is one more. -/
theorem definitions_of_more (h : r.scanner.lexeme ≠ .eof) : definitions r =
    (definition >>= fun d => definitions >>= fun ds => pure (d :: ds)) r :=
  Production.repeatWhile_of_more (congrArg Except.ok (decide_eq_true h))

end Reader

/-- A text is parsed as the definitions that are read from its first lexeme on. -/
theorem Document.parse_eq (text : String) : Document.parse text =
    ((Reader.advance >>= fun _ => Reader.definitions) (.ofText text)).map fun q =>
      ⟨q.1, .start, q.2.scanner.cursor.position⟩ := by
  unfold parse attempt
  rw [Reader.bind_apply]
  cases Reader.advance (.ofText text) with
  | error e => rfl
  | ok q =>
    unfold Reader.definitions Production.repeatWhile
    dsimp only [Except.bind]
    cases (Production.collect _ _ q.2).2 <;> rfl

/-- A text is a document where its definitions can be read. -/
theorem Document.parse_eq_ok {text : String} {d : Document} : Document.parse text = .ok d ↔
    (Cursor.ofText text).ahead ≠ .unknown ∧
      ∃ r, Reader.definitions (.ofCursor (.ofText text)) = .ok (d.definitions, r) ∧
        d.span = ⟨.start, r.scanner.cursor.position⟩ := by
  unfold parse attempt
  cases hadvance : Reader.advance (.ofText text) with
  | error e =>
    refine iff_of_false (by rintro ⟨⟩) ?_
    rintro ⟨hahead, -⟩
    rw [Reader.advance_eq_ok (u := ()).mpr ⟨hahead, rfl⟩] at hadvance
    cases hadvance
  | ok q =>
    obtain ⟨u, r⟩ := q
    obtain ⟨hahead, hr⟩ := Reader.advance_eq_ok.mp hadvance
    obtain rfl : r = .ofCursor (.ofText text) := hr
    unfold Reader.definitions Production.repeatWhile
    dsimp only
    generalize Production.collect _ _ _ = collected
    obtain ⟨definitions, ending⟩ := collected
    obtain ⟨definitions', span⟩ := d
    cases ending with
    | error e => simp [Except.map]
    | ok r =>
      simp only [Except.map, Except.ok.injEq, mk.injEq, Prod.mk.injEq]
      constructor
      · rintro ⟨rfl, rfl⟩
        exact ⟨hahead, r, ⟨rfl, rfl⟩, rfl⟩
      · rintro ⟨-, _, ⟨rfl, rfl⟩, rfl⟩
        exact ⟨rfl, rfl⟩

end GraphQLSyntax
