import GraphQLSyntax.Proofs.Grammar.Reads

/-!
# Values are read as they are written

* `Reader.reads_value`: a reader of values reads the value that it gives.
-/

namespace GraphQLSyntax

namespace Reader

variable {k : Cursor}

/-- A scalar is spelled by its token. -/
theorem spelled_scalar {t : Token} {terminal : Terminal} (h : t.IsLiteral)
    (hterminal : t.terminal = terminal) :
    Item.Spelled .reading [(Value.scalar t).item] [⟨terminal, t.span⟩] := by
  refine .single (.node h (.scalar t) (spelled_token hterminal) ?_)
  rintro span ⟨⟩
  exact covers_single.mpr rfl

theorem spelled_ofName (text : String) (span : Span) :
    Item.Spelled .reading [(Value.ofName (.plain .name text span)).item]
      [⟨.lexeme .name text, span⟩] := by
  have hword (kind : Lexeme) (h : KeywordTable.value.classify text = kind) (hkind : kind ≠ .name) :
      kind.spelling? = some text := (KeywordTable.spelling?_of_classify h hkind).2
  unfold Value.ofName
  dsimp only [Token.plain]
  split
  · rename_i h
    cases hword _ h (by decide)
    exact .single (.node trivial .true (spelled_terminal _ _) (by rintro _ ⟨⟩))
  · rename_i h
    cases hword _ h (by decide)
    exact .single (.node trivial .false (spelled_terminal _ _) (by rintro _ ⟨⟩))
  · rename_i h
    cases hword _ h (by decide)
    exact .single (.node trivial .null (spelled_terminal _ _) (by rintro _ ⟨⟩))
  · rename_i htrue hfalse hnull
    refine spelled_scalar (Token.isLiteral_literal span (by decide) fun _ => ?_) rfl
    refine KeywordTable.value_classify_eq_name ?_
    simp only [List.mem_cons, List.not_mem_nil, or_false, not_or]
    exact ⟨htrue, hfalse, hnull⟩

theorem listDepth_ofName (t : Token) : (Value.ofName t).listDepth = 0 := by
  unfold Value.ofName
  split <;> rfl

theorem ReadsFrom.namedValue (h : k.ahead = .name) : Reader.namedValue.ReadsFrom
    (fun v items _ => items = [v.item] ∧ v.listDepth = 0) k := by
  unfold Reader.namedValue
  refine (ReadsFrom.take (fun t => (Value.ofName t).item) h rfl spelled_ofName).bind ?_
  rintro t _ k' ⟨rfl, -⟩
  exact ReadsFrom.pure ⟨rfl, listDepth_ofName t⟩

/-- A literal that is a single lexeme is spelled by it. -/
theorem spelled_literal {kind : Lexeme} (hkind : kind ∈ [.int, .float, .string, .blockString])
    (text : String) (span : Span) : Item.Spelled .reading
      [(Value.scalar (.literal kind text span)).item] [⟨.lexeme kind text, span⟩] := by
  refine spelled_scalar (Token.isLiteral_literal span ?_ ?_) ?_ <;>
    simp only [List.mem_cons, List.not_mem_nil, or_false] at hkind <;>
    rcases hkind with rfl | rfl | rfl | rfl <;> simp [Token.terminal, Token.literal]

theorem isControl_literal {kind : Lexeme} (hkind : kind ∈ [.int, .float, .string, .blockString]) :
    kind.isControl = false := by
  simp only [List.mem_cons, List.not_mem_nil, or_false] at hkind
  rcases hkind with rfl | rfl | rfl | rfl <;> rfl

theorem ReadsFrom.literal {kind : Lexeme} (h : k.ahead = kind)
    (hkind : kind ∈ [.int, .float, .string, .blockString]) : (Reader.literal kind).ReadsFrom
    (fun v items _ => items = [v.item] ∧ v.listDepth = 0) k := by
  unfold Reader.literal
  refine (ReadsFrom.take (fun t => (Value.scalar (.literal kind t.text t.span)).item) h
    (isControl_literal hkind) (spelled_literal hkind)).bind ?_
  rintro t _ k' ⟨rfl, -⟩
  exact ReadsFrom.pure ⟨rfl, rfl⟩

theorem ReadsFrom.object (h : k.ahead = .curlyOpen) : Reader.object.ReadsFrom
    (fun v items _ => items = [v.item] ∧ v.listDepth = 0) k := by
  intro v r' hv
  obtain ⟨text, ⟨hlaid, -, rfl⟩, rfl⟩ := (object_eq_ok h).mp hv
  refine ⟨_, _, _, rfl, .single hlaid, spelled_scalar ?_ rfl, rfl, rfl⟩
  exact Token.isLiteral_literal _ (by decide) (by rintro ⟨⟩)

/-- A list is read as its items between brackets. -/
theorem Reads.list {item : Production Value} {depth : Nat} (hdepth : depth < maxListDepth)
    (hitem : item.read.Reads fun v items _ => items = [v.item] ∧ v.listDepth ≤ depth) :
    (Reader.list item).Reads fun v items _ => items = [v.item] ∧ v.listDepth ≤ depth + 1 := by
  intro k
  refine ReadsFrom.spanned .value (T := fun build items _ => ∃ values : List Value,
    (∀ v ∈ values, v.listDepth ≤ depth) ∧ build = (fun span => .list values span) ∧
      items = .word .squareOpen "[" :: (values.map Value.item ++ [.word .squareClose "]"])) ?_ ?_
  · refine (Reads.word (c := '[') rfl _ k).bind ?_
    rintro opener _ k₁ rfl
    refine (Production.reads_untilClosing hitem k₁).bind ?_
    rintro values _ k₂ ⟨rfl, hall, hclose⟩
    refine (ReadsFrom.advance hclose rfl).bind ?_
    rintro _ _ k₃ rfl
    exact ReadsFrom.pure ⟨values, hall, rfl, rfl⟩
  · rintro _ _ k' span ⟨values, hall, rfl, rfl⟩
    have hle : (Value.list values span).listDepth ≤ depth + 1 :=
      Nat.succ_le_succ (Value.itemsDepth_le_iff.mpr hall)
    exact ⟨Nat.le_trans hle hdepth, .list values span, rfl, rfl, hle⟩

theorem Reads.valueWith {list : Reader Value} {depth : Nat}
    (hlist : list.Reads fun v items _ => items = [v.item] ∧ v.listDepth ≤ depth) :
    (Reader.valueWith list).Reads fun v items _ => items = [v.item] ∧ v.listDepth ≤ depth := by
  intro k
  have hflat {p : Reader Value}
      (h : p.ReadsFrom (fun v items _ => items = [v.item] ∧ v.listDepth = 0) k) :
      p.ReadsFrom (fun v items _ => items = [v.item] ∧ v.listDepth ≤ depth) k :=
    h.mono fun v items k' ⟨hitems, hdepth⟩ => ⟨hitems, hdepth ▸ Nat.zero_le depth⟩
  refine ReadsFrom.lexeme_bind ?_
  split
  · rename_i h
    exact hflat (ReadsFrom.namedValue h)
  · exact hlist k
  · rename_i h
    exact hflat (ReadsFrom.object h)
  · rename_i h
    exact hflat (ReadsFrom.literal h (by decide))
  · rename_i h
    exact hflat (ReadsFrom.literal h (by decide))
  · rename_i h
    exact hflat (ReadsFrom.literal h (by decide))
  · rename_i h
    exact hflat (ReadsFrom.literal h (by decide))
  · exact ReadsFrom.fail _
  · exact ReadsFrom.fail _

/-- Values are read with the lists that they may have. -/
theorem reads_value_depth {depth : Nat} (hdepth : depth ≤ maxListDepth) :
    (Production.value depth).read.Reads fun v items _ =>
      items = [v.item] ∧ v.listDepth ≤ depth := by
  induction depth with
  | zero => exact Reads.valueWith fun _ => ReadsFrom.fail _
  | succ depth ih => exact Reads.valueWith (Reads.list hdepth (ih (Nat.le_of_lt hdepth)))

/-- A value is read as it is written. -/
theorem reads_value : value.Reads fun v items _ => items = [v.item] :=
  (reads_value_depth (Nat.le_refl _)).mono fun _ _ _ h => h.1

end Reader

end GraphQLSyntax
