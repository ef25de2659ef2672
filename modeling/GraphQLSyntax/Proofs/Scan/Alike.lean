import GraphQLSyntax.Proofs.Lexical.Lookahead
import GraphQLSyntax.Proofs.Scan.Trail

/-!
# Scanners in two texts

Two texts that have their first bytes in common are scanned alike, as long as three of these bytes
are left behind what has been scanned.

* `Cursor.Alike`, `Scanner.Alike`: the same has been scanned in both texts.
* `Cursor.Alike.skipTrivia`, `Cursor.Alike.ofCursor`: so is the next lexeme.
* `Scanner.Alike.objectLiteral`: so is an object literal.
-/

namespace GraphQLSyntax

/-! ## Cursors -/

namespace Cursor

/-- Two cursors stand at the same place in texts that have the same first `n` bytes. At least three
of these follow. -/
structure Alike (n : Nat) (k k' : Cursor) : Prop where
  eq : k' = { k with rest := k'.rest }
  agree : Text.Agree (n - k.position.byteOffset) k.rest k'.rest
  room : k.position.byteOffset + 3 ≤ n

namespace Alike

variable {n : Nat} {k k' m : Cursor} {taken rest : List Char}

theorem position (h : k.Alike n k') : k'.position = k.position := by rw [h.eq]

theorem startAlike (h : k.Alike n k') : Text.StartAlike k.rest k'.rest := by
  have := h.room
  exact h.agree.startAlike (by omega)

theorem rest_eq_nil_iff (h : k.Alike n k') : k'.rest = [] ↔ k.rest = [] := by
  have hstart := h.startAlike
  generalize k.rest = rest at hstart
  generalize k'.rest = rest' at hstart
  cases hstart <;> simp

theorem head_iff (h : k.Alike n k') {c : Char} (hc : c.utf8Size ≠ 4) :
    k'.rest.head? = some c ↔ k.rest.head? = some c :=
  ⟨fun hhead => h.startAlike.head_eq hhead hc, fun hhead => h.startAlike.symm.head_eq hhead hc⟩

/-- What follows one cursor follows the other, too. Both texts go on alike behind it. -/
theorem split (h : k.Alike n k') (hrest : k.rest = taken ++ rest)
    (hroom : k.position.byteOffset + Text.byteLength taken + 3 ≤ n) :
    ∃ rest', k'.rest = taken ++ rest' ∧
      Text.Agree (n - (k.position.byteOffset + Text.byteLength taken)) rest rest' ∧
      Text.StartAlike rest rest' := by
  have hagree := h.agree
  rw [hrest] at hagree
  obtain ⟨rest', hrest', hagree'⟩ := hagree.append (by omega)
  rw [Nat.sub_sub] at hagree'
  exact ⟨rest', hrest', hagree', hagree'.startAlike (by omega)⟩

/-- Moving over the same text leads to cursors at the same place. -/
theorem moved {move : Cursor → Char → Cursor}
    (hmove : ∀ (k : Cursor) c rest,
      move { k with rest } c = { move k c with rest := rest.tail })
    (hoffset : (taken.foldl move k).position.byteOffset =
      k.position.byteOffset + Text.byteLength taken)
    (h : k.Alike n k') (htaken : taken <+: k.rest)
    (hroom : (taken.foldl move k).position.byteOffset + 3 ≤ n) :
    taken <+: k'.rest ∧ (taken.foldl move k).Alike n (taken.foldl move k') := by
  obtain ⟨rest, hrest⟩ := htaken
  rw [hoffset] at hroom
  obtain ⟨rest', hrest', hagree, -⟩ := h.split hrest.symm hroom
  have hmoved : taken.foldl move k' = { taken.foldl move k with rest := rest' } := by
    rw [h.eq, foldl_rest hmove, hrest', List.drop_left]
  refine ⟨⟨rest', hrest'.symm⟩, ?_⟩
  have hleft : (taken.foldl move k).rest = k.rest.drop taken.length :=
    congrArg Cursor.rest (foldl_rest hmove taken k k.rest)
  rw [hmoved]
  refine ⟨rfl, ?_, by rwa [hoffset]⟩
  rwa [hoffset, hleft, ← hrest, List.drop_left]

theorem consume (h : k.Alike n k') (htaken : taken <+: k.rest)
    (hroom : (k.consume taken).position.byteOffset + 3 ≤ n) :
    taken <+: k'.rest ∧ (k.consume taken).Alike n (k'.consume taken) :=
  h.moved step_rest (byteOffset_consume k taken) htaken hroom

theorem position_consume (h : k.Alike n k') (taken : List Char) :
    (k'.consume taken).position = (k.consume taken).position := by
  rw [h.eq, Cursor.consume, foldl_rest step_rest]
  rfl

/-- What is read where a cursor stands is read where the other stands, if it depends on the next
character at most. -/
theorem read {β : Type} {f : List Char → β × List Char} (htakes : ∀ cs, (f cs).2 <+: cs)
    (hlocal : ∀ b taken rest rest', f (taken ++ rest) = (b, taken) → Text.StartAlike rest rest' →
      f (taken ++ rest') = (b, taken))
    (h : k.Alike n k') (hroom : (k.consume (f k.rest).2).position.byteOffset + 3 ≤ n) :
    f k'.rest = f k.rest ∧ (k.consume (f k.rest).2).Alike n (k'.consume (f k.rest).2) := by
  refine ⟨?_, (h.consume (htakes k.rest) hroom).2⟩
  obtain ⟨rest, hrest⟩ := htakes k.rest
  rw [byteOffset_consume] at hroom
  obtain ⟨rest', hrest', -, hstart⟩ := h.split hrest.symm hroom
  have hf : f ((f k.rest).2 ++ rest) = ((f k.rest).1, (f k.rest).2) := by rw [hrest]
  rw [hrest', hlocal _ _ _ _ hf hstart]

theorem openings (h : k.Alike n k')
    (hroom : (k.consume (Lexical.openings k.rest)).position.byteOffset + 3 ≤ n) :
    Lexical.openings k'.rest = Lexical.openings k.rest ∧
      (k.consume (Lexical.openings k.rest)).Alike n (k'.consume (Lexical.openings k.rest)) := by
  obtain ⟨hread, hcursor⟩ := h.read (f := fun cs => ((), Lexical.openings cs))
    (fun _ => List.takeWhile_prefix _) (fun _ _ _ _ hf hstart => congrArg (Prod.mk ())
      (Lexical.openings_congr (congrArg Prod.snd hf) hstart)) hroom
  exact ⟨congrArg Prod.snd hread, hcursor⟩

theorem closings {lists : Nat} (h : k.Alike n k')
    (hroom : (k.consume (Lexical.closings lists k.rest)).position.byteOffset + 3 ≤ n) :
    Lexical.closings lists k'.rest = Lexical.closings lists k.rest ∧
      (k.consume (Lexical.closings lists k.rest)).Alike n
        (k'.consume (Lexical.closings lists k.rest)) := by
  obtain ⟨hread, hcursor⟩ := h.read (f := fun cs => ((), Lexical.closings lists cs))
    (Lexical.closings_isPrefix lists) (fun _ _ _ _ hf hstart => congrArg (Prod.mk ())
      (Lexical.closings_congr (congrArg Prod.snd hf) hstart)) hroom
  exact ⟨congrArg Prod.snd hread, hcursor⟩

theorem skipGap (h : k.Alike n k') (hroom : k.skipGap.position.byteOffset + 3 ≤ n) :
    k.skipGap.Alike n k'.skipGap := by
  have hgap : k'.rest.takeWhile Lexical.isGap = k.rest.takeWhile Lexical.isGap := by
    rw [byteOffset_skipGap] at hroom
    obtain ⟨rest', hrest', -, hstart⟩ := h.split k.rest_eq_gap_append hroom
    have hrun := Lexical.Narrow.isGap.takeWhile_congr (by rw [← k.rest_eq_gap_append]) hstart
    rwa [← hrest'] at hrun
  have hmoved := h.moved skip_rest (byteOffset_skipGap k) (List.takeWhile_prefix _) hroom
  rw [Cursor.skipGap, Cursor.skipGap, hgap]
  exact hmoved.2

end Alike

end Cursor

/-! ## Scanners -/

/-- Two scanners have the same lexeme, at the same place in texts that have the same first `n`
bytes. -/
structure Scanner.Alike (n : Nat) (s s' : Scanner) : Prop where
  cursor : s.cursor.Alike n s'.cursor
  lexeme : s'.lexeme = s.lexeme
  start : s'.start = s.start
  text : s'.text = s.text

theorem Scanner.alike_ofText {n : Nat} {text text' : String}
    (h : Text.Agree n text.toList text'.toList) (hn : 3 ≤ n) :
    (Scanner.ofText text).Alike n (Scanner.ofText text') := ⟨⟨rfl, h, hn⟩, rfl, rfl, rfl⟩

namespace Cursor

theorem byteOffset_le_ofCursor (k : Cursor) :
    k.position.byteOffset ≤ (Scanner.ofCursor k).cursor.position.byteOffset := by
  rw [Scanner.ofCursor, byteOffset_consume]
  exact Nat.le_add_right _ _

variable {n : Nat} {k k' : Cursor}

/-- The next lexeme is the same in both texts. -/
theorem Alike.ofCursor (h : k.Alike n k')
    (hroom : (Scanner.ofCursor k).cursor.position.byteOffset + 3 ≤ n) :
    (Scanner.ofCursor k).Alike n (Scanner.ofCursor k') := by
  obtain ⟨hclassify, hcursor⟩ := h.read Lexical.classify_isPrefix
    (fun _ _ _ _ hf hstart => Lexical.local_classify _ _ _ _ hf (.alike hstart)) hroom
  unfold Scanner.ofCursor
  rw [hclassify]
  exact ⟨hcursor, rfl, h.position, rfl⟩

theorem Alike.skipTrivia (h : k.Alike n k')
    (hroom : k.skipTrivia.position.byteOffset + 3 ≤ n) : k.skipTrivia.Alike n k'.skipTrivia := by
  fun_induction Cursor.skipTrivia k generalizing k' with
  | case1 k hcomment ih =>
    have hle := (Scanner.ofCursor k.skipGap).cursor.byteOffset_le_skipTrivia
    have hle' := k.skipGap.byteOffset_le_ofCursor
    have hlexeme := (h.skipGap (by omega)).ofCursor (by omega)
    rw [skipTrivia.eq_def k', if_pos (by rw [hlexeme.lexeme, hcomment])]
    exact ih hlexeme.cursor hroom
  | case2 k hcomment =>
    have hgap := h.skipGap hroom
    have hcomment' : (Scanner.ofCursor k'.skipGap).lexeme ≠ .comment := by
      intro hlexeme
      have hhash := Lexical.classify_comment_iff.mp hlexeme
      exact hcomment (Lexical.classify_comment_iff.mpr (hgap.startAlike.head_eq hhash (by decide)))
    rw [skipTrivia.eq_def k', if_neg hcomment']
    exact hgap

end Cursor

/-- A failure at the cursor is the same in both texts. -/
theorem Scanner.Alike.failHere {n : Nat} (s s' : Scanner) (h : s.cursor.Alike n s'.cursor) :
    s.failHere.Alike n s'.failHere := ⟨h, rfl, h.position, rfl⟩

/-- So is an object literal. -/
theorem Scanner.Alike.objectLiteral {n : Nat} {s s' : Scanner} (h : s.Alike n s')
    (hroom : s.objectLiteral.cursor.position.byteOffset + 3 ≤ n) :
    s.objectLiteral.Alike n s'.objectLiteral := by
  obtain ⟨hbraced, hcursor⟩ := h.cursor.read (Lexical.braced_isPrefix 0)
    (fun _ _ _ _ hf hstart => Lexical.local_braced 0 _ _ _ _ hf (.alike hstart)) hroom
  unfold Scanner.objectLiteral
  rw [hbraced]
  exact ⟨hcursor, rfl, h.start, by rw [h.text]⟩

end GraphQLSyntax
