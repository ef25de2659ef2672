import GraphQLSyntax.Proofs.Grammar.TypeText
import GraphQLSyntax.Proofs.Print.RoundTrip

/-!
# Writing types

* `Spread`: tokens in a row, with ignorable characters before each of them.
* `TypeRef.tokens`: the brackets, the name and the marks that a type is written with.
* `TypeRef.parse_spread`: a text that they are spread in is parsed as the type.
-/

namespace GraphQLSyntax

/-- Some tokens make up a text, with ignorable characters before each of them. -/
inductive Spread : (tokens : List (List Char)) → (cs : List Char) → Prop where
  | nil : Spread [] []
  | cons (ignored : List Char) {token cs : List Char} {tokens : List (List Char)}
    (hignored : ∀ c ∈ ignored, Lexical.isIgnorable c) (h : Spread tokens cs) :
    Spread (token :: tokens) (ignored ++ (token ++ cs))

theorem Spread.of_append {tokens tokens' : List (List Char)} {cs : List Char}
    (h : Spread (tokens ++ tokens') cs) :
    ∃ first second, cs = first ++ second ∧ Spread tokens first ∧ Spread tokens' second := by
  induction tokens generalizing cs with
  | nil => exact ⟨[], cs, rfl, .nil, h⟩
  | cons token tokens ih =>
    cases h with
    | @cons ignored _ cs _ hignored h =>
      obtain ⟨first, second, rfl, hfirst, hsecond⟩ := ih h
      exact ⟨_, second, by simp only [List.append_assoc], .cons _ hignored hfirst, hsecond⟩

/-- Terminals that are read as what they are, whatever follows, stand where they are spread. -/
theorem Laid.exists_of_spread {ts : List Terminal} {cs rest : List Char} {k : Cursor}
    (hts : ∀ t ∈ ts, ∀ rest, t.Stands rest) (h : Spread (ts.map Terminal.chars) cs)
    (hrest : k.rest = cs ++ rest) :
    ∃ pieces, Laid k pieces (k.consume cs) ∧ pieces.map (·.terminal) = ts := by
  induction ts generalizing k cs with
  | nil =>
    cases h
    exact ⟨[], rfl, rfl⟩
  | cons t ts ih =>
    rw [List.map_cons] at h
    cases h with
    | @cons ignored _ cs _ hignored h =>
      rw [List.append_assoc, List.append_assoc] at hrest
      obtain ⟨hat, hbehind⟩ := (hts t (by simp) _).laidAt hrest hignored
      rw [← List.append_assoc] at hrest
      obtain ⟨pieces, hlaid, hpieces⟩ := ih (k := k.behind t) (fun u hu => hts u (by simp [hu])) h
        (by rw [hbehind, Cursor.rest_consume_of_append hrest])
      rw [hbehind, ← Cursor.consume_append, List.append_assoc, ← hbehind] at hlaid
      exact ⟨⟨t, k.spanOf t⟩ :: pieces, ⟨hat, rfl, hlaid⟩, by rw [List.map_cons, hpieces]⟩

theorem Spread.mem {tokens : List (List Char)} {cs : List Char} (h : Spread tokens cs) :
    ∀ c ∈ cs, Lexical.isIgnorable c ∨ ∃ token ∈ tokens, c ∈ token := by
  induction h with
  | nil => simp
  | @cons ignored token cs tokens hignored _ ih =>
    intro c hc
    rw [List.mem_append, List.mem_append] at hc
    rcases hc with hc | hc | hc
    · exact .inl (hignored c hc)
    · exact .inr ⟨token, List.mem_cons_self, hc⟩
    · refine (ih c hc).imp_right ?_
      rintro ⟨t, ht, hct⟩
      exact ⟨t, List.mem_cons_of_mem _ ht, hct⟩

/-! ## Types -/

namespace Wrapping

/-- So many lists around a name, marked at the levels that are flagged. -/
def ofFlags (flags : Nat → Bool) : (lists : Nat) → Wrapping
  | 0 => named (flags 0)
  | lists + 1 => list (flags 0) (ofFlags (fun level => flags (level + 1)) lists)

/-- The marks and closing brackets behind the type at a level: an exclamation mark where the level
is flagged, and a bracket unless it is the outermost. -/
def marksFrom (flags : Nat → Bool) : (level : Nat) → List Char
  | 0 => marks (flags 0)
  | level + 1 => marks (flags (level + 1)) ++ ']' :: marksFrom flags level

variable (flags : Nat → Bool)

@[simp] theorem dimensions_ofFlags (lists : Nat) : (ofFlags flags lists).dimensions = lists := by
  induction lists generalizing flags with
  | zero => rfl
  | succ lists ih => rw [ofFlags, dimensions, ih]

theorem isNonNullAt_ofFlags (lists level : Nat) :
    (ofFlags flags lists).isNonNullAt level = (decide (level ≤ lists) && flags level) := by
  induction lists generalizing flags level with
  | zero => cases level <;> simp [ofFlags, isNonNullAt, isNonNull]
  | succ lists ih =>
    cases level with
    | zero => simp [ofFlags, isNonNullAt, isNonNull]
    | succ level => simp [ofFlags, isNonNullAt, ih]

/-- The marks of the levels below the outermost, in front of those of the outermost. -/
theorem marksFrom_succ (lists : Nat) : marksFrom flags (lists + 1) =
    marksFrom (fun level => flags (level + 1)) lists ++ ']' :: marks (flags 0) := by
  induction lists with
  | zero => rfl
  | succ lists ih =>
    rw [marksFrom, ih, marksFrom, List.append_assoc, List.cons_append]

/-- From the level of the name on, the marks are those of the type. -/
theorem closings_ofFlags (lists : Nat) :
    (ofFlags flags lists).closings = marksFrom flags lists := by
  induction lists generalizing flags with
  | zero => rfl
  | succ lists ih => rw [ofFlags, closings, ih, marksFrom_succ]

theorem mem_marksFrom (lists : Nat) : ∀ c ∈ marksFrom flags lists, c = ']' ∨ c = '!' := by
  rw [← closings_ofFlags]
  exact (closed_closings _).mem

end Wrapping

namespace TypeRef

/-- The tokens that a type in so many lists is written with, marked at the levels that are
flagged. -/
def tokens (name : String) (lists : Nat) (flags : Nat → Bool) : List (List Char) :=
  List.replicate lists ['['] ++ name.toList ::
    (Wrapping.marksFrom flags lists).map fun c => [c]

/-- The terminals that the tokens of a type are. -/
theorem tokens_eq (name : String) (lists : Nat) (flags : Nat → Bool) : tokens name lists flags =
    (Terminal.openings lists).map Terminal.chars ++
      name.toList :: ((Wrapping.marksFrom flags lists).map Terminal.mark).map Terminal.chars := by
  rw [Terminal.map_chars_openings, List.map_map]
  rfl

variable {name : String} {lists : Nat} {flags : Nat → Bool} {cs behind : List Char}

/-- No name goes on with the marks of a type, or with what stands before and behind them. -/
theorem not_isNamePart {marks : List Char} (hmarks : ∀ c ∈ marks, c = ']' ∨ c = '!')
    (h : Spread ((marks.map Terminal.mark).map Terminal.chars) cs) (hbehind : Gap behind []) :
    ∀ c ∈ (cs ++ behind).head?, Lexical.isNamePart c = false := by
  intro c hc
  cases cs with
  | nil => exact Lexical.Continues.isNamePart.apart c (hbehind.isCut c hc)
  | cons d cs =>
    obtain rfl : d = c := Option.some.inj hc
    rcases h.mem d List.mem_cons_self with hignored | ⟨token, htoken, hd⟩
    · have hgap := Cursor.isGap_of_isIgnorable hignored
      exact Lexical.Continues.isNamePart.apart d (Lexical.mem_apart_of_isGap hgap)
    · rw [List.map_map] at htoken
      obtain ⟨mark, hmark, rfl⟩ := List.mem_map.mp htoken
      obtain rfl : d = mark := List.mem_singleton.mp hd
      rcases hmarks d hmark with rfl | rfl <;> decide

/-- The tokens of a type stand where they are spread. -/
theorem laid_tokens {k : Cursor} (hname : Lexical.IsName name.toList)
    (h : Spread (tokens name lists flags) cs) (hbehind : Gap behind [])
    (hrest : k.rest = cs ++ behind) : ∃ pieces, Laid k pieces (k.consume cs) ∧
      pieces.map (·.terminal) = Terminal.openings lists ++
        .lexeme .name name :: (Wrapping.marksFrom flags lists).map .mark := by
  rw [tokens_eq] at h
  obtain ⟨first, second, rfl, hopenings, hsecond⟩ := h.of_append
  cases hsecond with
  | @cons ignored _ last _ hignored hmarks =>
    rw [List.append_assoc] at hrest
    obtain ⟨opened, hopened, hopens⟩ :=
      Laid.exists_of_spread Terminal.stands_openings hopenings hrest
    have hmem := Wrapping.mem_marksFrom flags lists
    have hstands : (Terminal.lexeme .name name).Stands (last ++ behind) :=
      ⟨Lexical.classify_name_append hname (not_isNamePart hmem hmarks hbehind), rfl, by decide⟩
    have hfirst := Cursor.rest_consume_of_append hrest
    rw [List.append_assoc, List.append_assoc] at hfirst
    obtain ⟨hat, hconsumed⟩ := hstands.laidAt hfirst hignored
    rw [← List.append_assoc] at hfirst
    obtain ⟨closed, hlast, hcloses⟩ := Laid.exists_of_spread (Terminal.stands_marks hmem) hmarks
      (hconsumed ▸ Cursor.rest_consume_of_append hfirst)
    have hlaid := hopened.append ((Laid.single hat).append hlast)
    rw [hconsumed, ← Cursor.consume_append, ← Cursor.consume_append, List.append_assoc] at hlaid
    exact ⟨_, hlaid, by rw [List.map_append, hopens, List.map_append, hcloses]; rfl⟩

/-- **Types are read as they are written.** A text that the tokens of a type are spread in, with a
gap behind them, is parsed as that type, up to the last of the tokens. -/
theorem parse_spread (hname : Lexical.IsName name.toList) (hlists : lists < Reader.maxLists)
    (h : Spread (tokens name lists flags) cs) (hbehind : Gap behind []) :
    ∃ t, parse (String.ofList (cs ++ behind)) = .ok t ∧ t.name.text = name ∧
      t.wrapping = .ofFlags flags lists ∧ t.span.stop.byteOffset = Text.byteLength cs := by
  have hrest : (Cursor.ofText (String.ofList (cs ++ behind))).rest = cs ++ behind :=
    String.toList_ofList
  obtain ⟨pieces, hlaid, hpieces⟩ := laid_tokens hname h hbehind hrest
  have hcounted : Reader.countedLists lists = lists :=
    Convention.counted_printing lists lists hlists rfl
  have hclosed := (Wrapping.ofFlags flags lists).closed_closings
  rw [Wrapping.closings_ofFlags] at hclosed
  have hspelled : SpelledBy (String.ofList (cs ++ behind)) name (.ofFlags flags lists) lists
      (Wrapping.marksFrom flags lists) pieces _ :=
    ⟨hlaid, hpieces, by rw [hcounted, Wrapping.dimensions_ofFlags],
      by rwa [Wrapping.dimensions_ofFlags], hclosed,
      Cursor.ahead_of_gap (by rwa [Cursor.rest_consume_of_append hrest])⟩
  obtain ⟨t, hparse, htext, hwrapping, hstop⟩ := hspelled.parse
  refine ⟨t, hparse, htext, hwrapping, ?_⟩
  rw [hstop, Cursor.byteOffset_consume]
  exact Nat.zero_add _

end TypeRef

end GraphQLSyntax
