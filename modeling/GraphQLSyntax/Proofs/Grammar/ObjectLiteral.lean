import GraphQLSyntax.Grammar.Value
import GraphQLSyntax.Proofs.Lexical.Units
import GraphQLSyntax.Proofs.Scan.Tiling

/-!
# Where object literals end

* `Production.value_curlyOpen`: a value that starts with a brace ends at the brace that balances it,
  and is refused where there is none.
-/

namespace GraphQLSyntax

open Lexical

/-- The scanner behind a brace and the text `body`, which started at the brace. -/
def Scanner.behindBrace (k : Cursor) (kind : Lexeme) (body : List Char) : Scanner :=
  ⟨k.consume ('{' :: body), kind, k.position, '{' :: body⟩

variable {r : Reading} {k : Cursor} {cs : List Char}

theorem Scanner.objectLiteral_ofCursor (hk : k.rest = '{' :: cs) :
    (Scanner.ofCursor k).objectLiteral = .behindBrace k (braced 0 cs).1 (braced 0 cs).2 := by
  have hclassify : classify k.rest = (.curlyOpen, ['{']) := by rw [hk]; rfl
  have hrest : (k.consume ['{']).rest = cs := by rw [Cursor.rest_consume, hk]; rfl
  rw [Scanner.ofCursor, hclassify]
  dsimp only [Scanner.objectLiteral]
  rw [hrest]
  rfl

/-- An object literal that does not end is refused, with a note on what opens it. -/
theorem Reader.object_of_unknown {s : Scanner} (h : r.scanner.objectLiteral = s)
    (hunknown : s.lexeme = .unknown) : Reader.object r = .error
      ((s.error (if s.cursor.rest = [] then .unclosedDelimiter "\x7b" else .unreadable)).withNote
        (.pointing "object literal opened here" r.scanner.span)) := by
  subst h
  rw [Reader.object]
  exact if_pos hunknown

/-- One that ends is read. -/
theorem Reader.object_of_object {s : Scanner} (h : r.scanner.objectLiteral = s)
    (hobject : s.lexeme = .object) :
    Reader.object r = Reader.literal .object { r with scanner := s } := by
  subst h
  rw [Reader.object]
  exact if_neg (by rw [hobject]; decide)

namespace Production

theorem value_read_of_curlyOpen (depth : Nat) (h : r.scanner.lexeme = .curlyOpen) :
    (value depth).read r = Reader.object r := by
  cases depth <;>
  · show Reader.valueWith _ r = _
    rw [Reader.valueWith, Reader.lexeme_bind, h]

/-- **Object literals end at their balancing brace.** -/
theorem value_curlyOpen (depth : Nat) (hr : r.scanner = .ofCursor k) (hk : k.rest = '{' :: cs) :
    -- It is an object if some units close one brace more than they open.
    (r.scanner.objectLiteral.lexeme = .object ↔ ∃ units rest, cs = units.flatten ++ rest ∧
      Units rest units ∧ units.count ['}'] = units.count ['{'] + 1) ∧
    -- It ends behind the first that do, and the scan goes on there.
    (∀ units rest, cs = units.flatten ++ rest → Units rest units → Closes units →
      r.scanner.objectLiteral = .behindBrace k .object units.flatten ∧
        r.scanner.objectLiteral.cursor.rest = rest ∧
        (value depth).read r =
          Reader.literal .object { r with scanner := .behindBrace k .object units.flatten }) ∧
    -- If none do, it is refused where no unit can be read.
    (r.scanner.objectLiteral.lexeme ≠ .object → ∃ units seen behind,
      cs = units.flatten ++ (seen ++ behind) ∧ Units (seen ++ behind) units ∧
        StaysOpen 0 units ∧ Stops seen behind ∧
        (value depth).read r = .error
          (((Scanner.behindBrace k .unknown (units.flatten ++ seen)).error
            (if behind = [] then .unclosedDelimiter "\x7b" else .unreadable)).withNote
              (.pointing "object literal opened here" ⟨k.position, k.position.shiftRight 1⟩))) := by
  have hscanner : r.scanner.objectLiteral =
      .behindBrace k (braced 0 cs).1 (braced 0 cs).2 := by
    rw [hr, Scanner.objectLiteral_ofCursor hk]
  have hlexeme : r.scanner.lexeme = .curlyOpen := by rw [hr, Scanner.ofCursor, hk]; rfl
  have hspan : r.scanner.span = ⟨k.position, k.position.shiftRight 1⟩ := by
    rw [hr, Scanner.ofCursor, hk]
    rfl
  have hrest (taken rest : List Char) (h : cs = taken ++ rest) :
      (k.consume ('{' :: taken)).rest = rest := by
    rw [Cursor.rest_consume, hk, h]
    exact List.drop_left
  rw [value_read_of_curlyOpen depth hlexeme, hscanner]
  refine ⟨braced_object_iff, ?_, ?_⟩
  · rintro units rest rfl hunits hcloses
    rw [hunits.braced_of_closes hcloses] at hscanner ⊢
    exact ⟨rfl, hrest _ _ rfl, Reader.object_of_object hscanner rfl⟩
  · intro hne
    obtain ⟨units, seen, behind, rfl, hunits, hstops⟩ := exists_units cs
    have hopen : StaysOpen 0 units := by
      intro front hfront
      by_contra hle
      have hlt : front.count ['{'] < front.count ['}'] := by omega
      obtain ⟨first, hfirst, hcloses⟩ := exists_closes hlt
      obtain ⟨more, rfl⟩ := hfirst.trans hfront
      rw [List.flatten_append, List.append_assoc,
        (Units.append_iff.mp hunits).1.braced_of_closes hcloses] at hne
      exact hne rfl
    rw [hunits.braced_of_staysOpen hopen hstops] at hscanner
    have hbehind : (Scanner.behindBrace k .unknown (units.flatten ++ seen)).cursor.rest = behind :=
      hrest _ _ (List.append_assoc ..).symm
    have hread := Reader.object_of_unknown hscanner rfl
    rw [hbehind, hspan] at hread
    exact ⟨units, seen, behind, rfl, hunits, hopen, hstops, hread⟩

/-- In `{a:{b:"}"}}x`, the second closing brace outside of the string balances the first. -/
theorem value_curlyOpen_nested : (Scanner.ofCursor (.ofText "\x7ba:\x7bb:\"\x7d\"\x7d\x7dx")
    ).objectLiteral.text = "\x7ba:\x7bb:\"\x7d\"\x7d\x7d".toList := by
  have hunits : Units ['x'] [['a'], [':'], ['{'], ['b'], [':'], ['"', '}', '"'], ['}'], ['}']] := by
    have hchar {c : Char} {rest : List Char} {units : List (List Char)} (hc : c ≠ '"')
        (h : Units rest units) : Units rest ([c] :: units) := .cons (.char hc) h
    have hstring : Escaped ['}'] := .plain (by decide) .nil
    exact hchar (by decide) <| hchar (by decide) <| hchar (by decide) <| hchar (by decide) <|
      hchar (by decide) <| .cons (.string (by decide) hstring) <| hchar (by decide) <|
      hchar (by decide) .nil
  have hrest : (Cursor.ofText "\x7ba:\x7bb:\"\x7d\"\x7d\x7dx").rest = '{' ::
      ([['a'], [':'], ['{'], ['b'], [':'], ['"', '}', '"'], ['}'], ['}']].flatten ++ ['x']) := by
    decide
  obtain ⟨-, hends, -⟩ := value_curlyOpen (r := ⟨.ofCursor (.ofText _), .start⟩) 0 rfl hrest
  obtain ⟨hscanner, -, -⟩ := hends _ ['x'] rfl hunits (by decide)
  exact congrArg Scanner.text hscanner

end Production

end GraphQLSyntax
