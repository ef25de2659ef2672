import GraphQLSyntax.Proofs.Grammar.Complete.TypeRef
import GraphQLSyntax.Proofs.Grammar.Complete.Value
import GraphQLSyntax.Proofs.Grammar.Guards

/-!
# Types and values are guarded

* `Reader.guards_typeRef`: a type is refused at its first bracket, if it has too many.
* `Reader.guards_value`: a value is refused at the first list that nests too deep in it.
-/

namespace GraphQLSyntax

open Leveled

variable {k k' : Cursor} {outer : Nat}

/-- The span of the current lexeme is that of its terminal. -/
theorem Terminal.LaidAt.span_eq {kind : Lexeme} {text : String}
    (h : (Terminal.lexeme kind text).LaidAt k) :
    (Reading.ofCursor k).scanner.span = k.spanOf (.lexeme kind text) :=
  congrArg Token.span h.token_eq

/-- A plain token stands where its terminal does. -/
theorem Leveled.LaidOut.token {t : Token} (h : LaidOut [plain t.terminal] k k') (ht : t.IsWhole) :
    (Part.token (t.map Position.forget)).LaidOut .printing Position.forget k k' :=
  (h.items (.token ht)).single

namespace Reader

/-! ## Types -/

/-- The first bracket of a type with 64 or more dimensions is refused. -/
theorem openings_tooDeep {brackets : Nat} (h : LaidOut (Leveled.openings (brackets + 1)) k k')
    (hname : k'.ahead = .name) (hdeep : 64 ≤ brackets + 1) (hsize : brackets + 1 < UInt32.size) :
    openings (.ofCursor k) =
      .error (Scanner.tooDeep "[" (k.spanOf (.lexeme .squareOpen "["))) := by
  have hopen : (Terminal.lexeme .squareOpen "[").LaidAt k := h.cons.1
  have hitems := h.items (by rw [terminals_openings]; exact Item.printed_openings _)
  obtain ⟨first, taken, hfirst, htaken, hcount, -⟩ := openings_laidOut hitems hname
  have hcounted : maxLists ≤ countedLists (taken.count '[' + 1) := by
    rw [hcount, countedLists, Nat.mod_eq_of_lt hsize]
    exact hdeep
  have hahead : (Reading.ofCursor k).scanner.lexeme = .squareOpen := hopen.ahead
  unfold openings
  rw [lexeme_bind, if_pos hahead, cursor_bind, hopen.cursor_eq, ← hfirst, ← htaken,
    if_pos hcounted, fail_apply, hopen.span_eq]

/-- A type with too many dimensions is refused at its first bracket. -/
theorem typeRef_tooDeep {t : TypeRef} (h : t.name.IsPlainName) (hlaid : LaidOut t.leveled k k')
    (hdeep : 64 ≤ t.dimensions) (hsize : t.dimensions < UInt32.size) :
    typeRef.Guards t.leveled k := by
  unfold TypeRef.leveled at hlaid ⊢
  generalize t.dimensions = dimensions at *
  obtain _ | brackets := dimensions
  · omega
  obtain ⟨k₁, hopenings, hname⟩ := hlaid.append
  have hk₁ : k₁.ahead = .name := hname.ahead_eq.trans (ahead_plainName h)
  have hk : k.ahead = .squareOpen := hopenings.ahead_eq
  have herror := openings_tooDeep hopenings hk₁ hdeep hsize
  have hrefused : openings.Guards (Leveled.openings (brackets + 1)) k :=
    Guards.refused (by simpa [Opening.tooDeep] using hdeep) herror
  apply Guards.lexeme_bind
  rw [hk]
  refine Guards.spanned (Guards.token_bind (hrefused.bind hopenings fun lists hlists => ?_))
  rw [herror] at hlists
  cases hlists

/-- A type is guarded where it stands. -/
theorem guards_typeRef {t : TypeRef} (h : (Part.node (.typeRef t)).ShapedWithin)
    (hsize : t.dimensions < UInt32.size) (hlaid : LaidOut t.leveled k k')
    (hnext : k'.ahead ∉ [.unknown, .squareClose]) : typeRef.Guards t.leveled k := by
  by_cases hdeep : 64 ≤ t.dimensions
  · exact typeRef_tooDeep h.self hlaid hdeep hsize
  have hlists : t.dimensions ≤ 63 := by omega
  have hwf : (Part.node (.typeRef t)).WellFormedWithin := by
    have hname := h.part (q := .token t.name) (by simp [Part.parts, Node.parts])
    rw [Part.shapedWithin_token] at hname
    rw [Part.wellFormedWithin_node]
    exact ⟨Node.wellFormed_iff.mpr ⟨h.self, hlists⟩, by simpa [Node.parts] using hname⟩
  have hclear : Clear t.leveled := by
    unfold TypeRef.leveled
    rw [clear_append, clear_openings]
    exact ⟨hlists, by simp [Clear]⟩
  have htype := (hlaid.items (by rw [TypeRef.terminals_leveled]; exact TypeRef.printed hwf)).single
  exact (gives_typeRef Convention.counted_printing htype hnext).guards
    (hlaid.walk_of_clear hclear)

/-! ## Values -/

/-- What a value starts with. -/
theorem starts_value {v : Value} (h : (Part.node (.value v)).ShapedWithin) :
    Starts [.name, .squareOpen, .curlyOpen, .int, .float, .string, .blockString]
      (v.leveled outer) := by
  cases v with
  | boolean value => cases value <;> exact starts_cons (by decide)
  | null => exact starts_cons (by decide)
  | scalar token =>
    have htoken : token.IsLiteral := h.self
    exact starts_cons htoken.ahead_mem
  | list items span => exact starts_cons (by simp [Terminal.ahead])

/-- A value is guarded where it stands, if the lists in it are. -/
theorem guards_valueWith {list : Reader Value} {v : Value}
    (h : (Part.node (.value v)).ShapedWithin) (hlaid : LaidOut (v.leveled outer) k k')
    (hnext : k'.ahead ≠ .unknown)
    (hlist : ∀ items span, v = .list items span → list.Guards (v.leveled outer) k) :
    (valueWith list).Guards (v.leveled outer) k := by
  have hword {text : String} (hlaid : LaidOut [plain (.keyword text)] k k') :
      (valueWith list).Guards [plain (.keyword text)] k := by
    obtain ⟨hat, rfl⟩ := hlaid.single
    have hahead : k.ahead = .name := hat.ahead
    apply Guards.lexeme_bind
    rw [hahead]
    exact (gives_namedValue hat hnext).guards rfl
  cases v with
  | boolean value => cases value <;> exact hword hlaid
  | null => exact hword hlaid
  | scalar token =>
    have hliteral : token.IsLiteral := h.self
    have hwhole := h.part (q := .token token) (by simp [Part.parts, Node.parts, Node.valueParts])
    rw [Part.shapedWithin_token] at hwhole
    exact (gives_scalar (t := token.map Position.forget) hliteral (hlaid.token hwhole) hnext).guards
      (hlaid.walk_of_clear (by simp [Value.leveled]))
  | list items span =>
    have hahead : k.ahead = .squareOpen := hlaid.ahead_eq
    apply Guards.lexeme_bind
    rw [hahead]
    exact hlist items span rfl

/-- A list that nests no deeper than it may is guarded, if its items are. -/
theorem guards_list {item : Production Value} {items : List Value} {span : Span}
    (h : (Part.node (.value (.list items span))).ShapedWithin)
    (hlaid : LaidOut (Value.leveled outer (.list items span)) k k') (hnext : k'.ahead ≠ .unknown)
    (houter : outer + 1 ≤ 64)
    (hitem : ∀ v ∈ items, ∀ k k', LaidOut (v.leveled (outer + 1)) k k' → k'.ahead ≠ .unknown →
      item.read.Guards (v.leveled (outer + 1)) k) :
    (list item).Guards (Value.leveled outer (.list items span)) k := by
  rw [Value.leveled, Value.leveledAll_eq] at hlaid ⊢
  have hparts (v : Value) (hv : v ∈ items) : (Part.node (.value v)).ShapedWithin :=
    h.part (by simp [Part.parts, Node.parts, Node.valueParts, hv])
  refine Guards.spanned (Production.guards_enclosed hlaid (by simpa [Opening.tooDeep] using houter)
    (fun v hv => starts_value (hparts v hv)) (by decide) (by decide) ?_ ?_)
  · intro v hv k₁ k₂ hlaid hk₂
    exact hitem v hv k₁ k₂ hlaid (ne_of_mem_of_not_mem hk₂ (by decide))
  · rintro opener values k₂ - hclose rfl
    exact guards_advance hclose hnext _

/-- Values are guarded with the lists that they have, as far as these may nest. -/
theorem guards_value_depth {depth : Nat} {v : Value} (hdepth : outer + depth = 64)
    (h : (Part.node (.value v)).ShapedWithin) (hlaid : LaidOut (v.leveled outer) k k')
    (hnext : k'.ahead ≠ .unknown) : (Production.value depth).read.Guards (v.leveled outer) k := by
  induction depth generalizing outer v k k' with
  | zero =>
    apply guards_valueWith h hlaid hnext
    rintro items span rfl
    have hopen : (Terminal.lexeme .squareOpen "[").LaidAt k := hlaid.cons.1
    apply Guards.refused
    · simp [Opening.tooDeep]
      omega
    · rw [fail_apply, hopen.span_eq]
      rfl
  | succ depth ih =>
    apply guards_valueWith h hlaid hnext
    rintro items span rfl
    refine guards_list h hlaid hnext (by omega) fun v hv k k' hlaid hnext => ?_
    refine ih (by omega) (h.part ?_) hlaid hnext
    simp [Part.parts, Node.parts, Node.valueParts, hv]

/-- A value is guarded where it stands. -/
theorem guards_value {v : Value} (h : (Part.node (.value v)).ShapedWithin)
    (hlaid : LaidOut (v.leveled 0) k k') (hnext : k'.ahead ≠ .unknown) :
    value.Guards (v.leveled 0) k := guards_value_depth rfl h hlaid hnext

end Reader

end GraphQLSyntax
