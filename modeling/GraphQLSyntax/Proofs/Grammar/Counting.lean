import GraphQLSyntax.Grammar.Counting
import GraphQLSyntax.Proofs.Grammar.Step

/-!
# Counters and depths

A reader that counts what is open reads what a reader does that is told how much deeper it may go:
the count and that depth add up to the limit. Where it succeeds, it leaves the count as it was.

* `Counting.Reads`: what a reader that counts does, by a reader that does not. `Reads.entered` and
  `Reads.left` balance each other.
* `Counting.reads_value`, `Counting.reads_selectionSet`: by induction on the levels, as long as these
  are no fewer than the counter allows.
* `Counting.parse_eq`: so documents are parsed with a counter as they are without.
-/

namespace GraphQLSyntax.Counting

open Reader

variable {α β : Type} {n m l : Nat} {limit : Nat} {tooDeep : Scanner → SyntaxError}

/-- Where there is room, one more is open. -/
theorem enter_of_lt (hn : n < limit) (r : Reading) :
    enter limit tooDeep n r = .ok (((), n + 1), r) := by
  show (if limit ≤ n then _ else _ : Counting Unit) n r = _
  rw [if_neg (Nat.not_le.mpr hn)]
  rfl

/-- Where there is none, nothing more is read. -/
theorem enter_of_le (hn : limit ≤ n) (r : Reading) :
    enter limit tooDeep n r = .error (tooDeep r.scanner) := by
  show (if limit ≤ n then _ else _ : Counting Unit) n r = _
  rw [if_pos hn]
  rfl

/-- With `n` open, `c` reads what `p` reads, and has `m` open behind it. -/
def Reads (c : Counting α) (n : Nat) (p : Reader α) (m : Nat) : Prop :=
  ∀ r, c n r = (p r).map fun (a, r') => ((a, m), r')

namespace Reads

theorem lift (p : Reader α) : Reads (liftM p) n p n := by
  intro r
  show (p >>= fun a => Pure.pure (a, n)) r = _
  rw [Reader.bind_apply]
  cases p r <;> rfl

theorem pure (a : α) : Reads (Pure.pure a) n (Pure.pure a) n := fun _ => rfl

theorem fail (error : Scanner → SyntaxError) :
    Reads (liftM (Reader.fail error : Reader α)) n (Reader.fail error) m := fun _ => rfl

theorem bind {c : Counting α} {f : α → Counting β} {p : Reader α} {g : α → Reader β}
    (hc : c.Reads n p m) (hf : ∀ a, (f a).Reads m (g a) l) : (c >>= f).Reads n (p >>= g) l := by
  intro r
  show (c n >>= fun q => f q.1 q.2) r = _
  rw [Reader.bind_apply, Reader.bind_apply, hc r]
  cases p r with
  | error e => rfl
  | ok q => exact hf q.1 q.2

theorem entered {f : Unit → Counting α} {p : Reader α} (hn : n < limit)
    (hf : (f ()).Reads (n + 1) p m) : (enter limit tooDeep >>= f).Reads n p m := by
  intro r
  show (enter limit tooDeep n >>= fun q => f q.1 q.2) r = _
  rw [Reader.bind_apply, enter_of_lt hn]
  exact hf r

theorem refused {f : Unit → Counting α} (hn : limit ≤ n) :
    (enter limit tooDeep >>= f).Reads n (Reader.fail tooDeep) m := by
  intro r
  show (enter limit tooDeep n >>= fun q => f q.1 q.2) r = _
  rw [Reader.bind_apply, enter_of_le hn]
  rfl

theorem left {f : Unit → Counting α} {p : Reader α} (hf : (f ()).Reads n p m) :
    (leave >>= f).Reads (n + 1) p m := fun r => hf r

theorem whenAt {kind : Lexeme} {otherwise : α} {part : Counting α} {p : Reader α}
    (h : part.Reads n p n) :
    (whenAt kind otherwise part).Reads n (Reader.whenAt kind otherwise p) n := by
  refine (lift _).bind fun k => ?_
  split
  · exact h
  · exact .pure _

theorem spanned {part : Counting (Span → α)} {p : Reader (Span → α)} (h : part.Reads n p m) :
    (spanned part).Reads n (Reader.spanned p) m := by
  intro r
  unfold Counting.spanned Reader.spanned
  rw [h r]
  cases p r <;> rfl

/-- Items are read one after the other where each of them is. -/
theorem repeatWhile {one : Counting α} {item : Production α} (h : one.Reads n item.read n)
    (more : Scanner → Except SyntaxError Bool) :
    (one.repeatWhile more).Reads n (item.repeatWhile more) n := by
  intro r
  -- Each item leaves less to read.
  induction hr : r.remaining using Nat.strong_induction_on generalizing r with
  | _ left ih =>
    subst hr
    rw [Counting.repeatWhile]
    cases hmore : more r.scanner with
    | error e =>
      rw [Production.repeatWhile_of_error hmore]
      rfl
    | ok again =>
      cases again with
      | false =>
        rw [Production.repeatWhile_of_end hmore]
        rfl
      | true =>
        rw [Production.repeatWhile_of_more hmore, Reader.bind_apply, h r]
        cases hread : item.read r with
        | error e => rfl
        | ok q =>
          have hlt := item.advances r q.1 q.2 hread
          dsimp only [Except.map, Except.bind]
          rw [if_pos hlt, ih _ hlt q.2 rfl, Reader.bind_apply]
          cases item.repeatWhile more q.2 <;> rfl

theorem untilClosing {one : Counting α} {item : Production α} (h : one.Reads n item.read n)
    (close : Lexeme) (unclosed : Scanner → SyntaxError) :
    (one.untilClosing close unclosed).Reads n (item.untilClosing close unclosed) n :=
  h.repeatWhile _

end Reads

/-! ## Values -/

/-- A list is refused where the limit is reached. -/
theorem reads_list_refused (item : Counting Value) (hn : maxListDepth ≤ n) :
    (list item).Reads n (fail fun s => Scanner.tooDeep "[" s.span) m := by
  show Reads _ n (Reader.spanned (fail fun s => Scanner.tooDeep "[" s.span)) m
  exact .spanned (.refused hn)

/-- Everywhere else it is read, and counted while its items are. -/
theorem reads_list {one : Counting Value} {item : Production Value} (hn : n < maxListDepth)
    (h : one.Reads (n + 1) item.read (n + 1)) : (list one).Reads n (Reader.list item) n := by
  refine .spanned (.entered hn ?_)
  refine (Reads.lift _).bind fun opener => (h.untilClosing _ _).bind fun items => ?_
  exact .left ((Reads.lift _).bind fun _ => .pure _)

theorem reads_valueWith {one : Counting Value} {p : Reader Value} (h : one.Reads n p n) :
    (valueWith one).Reads n (Reader.valueWith p) n := by
  refine (Reads.lift _).bind fun k => ?_
  cases k with
  | squareOpen => exact h
  | _ => exact .lift _

/-- With `n` lists open and `depth` more allowed, a value is read as it is without a counter. As many
lists are open behind it. -/
theorem reads_value {levels depth : Nat} (h : n + depth = maxListDepth) (hle : depth ≤ levels) :
    (value levels).Reads n (Production.value depth).read n := by
  induction levels generalizing n depth with
  | zero =>
    obtain rfl := Nat.le_zero.mp hle
    exact reads_valueWith (.fail _)
  | succ levels ih =>
    cases depth with
    | zero => exact reads_valueWith (reads_list_refused _ (Nat.le_of_eq h.symm))
    | succ depth => exact reads_valueWith (reads_list (by omega) (ih (by omega) (by omega)))

/-- Every value has a counter of its own, which starts and ends with no list open. -/
theorem reads_ownValue {levels : Nat} (hle : maxListDepth ≤ levels) :
    (value levels).Reads 0 Reader.value 0 := reads_value (Nat.zero_add _) hle

/-! ## Selections -/

section

variable {counted : Counting (List Selection)} {nested : Reader (List Selection)}

theorem reads_field (h : counted.Reads n nested n) :
    (field counted).Reads n (Reader.field nested) n := by
  refine .spanned ?_
  refine (Reads.lift _).bind fun first => (Reads.lift _).bind fun second => ?_
  refine (Reads.lift _).bind fun arguments => (Reads.lift _).bind fun directives => ?_
  exact h.whenAt.bind fun selections => .pure _

theorem reads_inlineFragment (h : counted.Reads n nested n) (typeCondition : Option Token) :
    (inlineFragment typeCondition counted).Reads n (Reader.inlineFragment typeCondition nested) n :=
  (Reads.lift _).bind fun _ => h.bind fun _ => .pure _

theorem reads_spreadBody (h : counted.Reads n nested n) :
    (spreadBody counted).Reads n (Reader.spreadBody nested) n := by
  refine (Reads.lift _).bind fun k => ?_
  split
  · refine (Reads.lift _).bind fun _ => (Reads.lift _).bind fun typeCondition => ?_
    exact reads_inlineFragment h (some typeCondition)
  · refine (Reads.lift _).bind fun k => ?_
    split
    · refine (Reads.lift _).bind fun fragmentName => (Reads.lift _).bind fun directives => ?_
      exact .pure _
    · exact reads_inlineFragment h none

theorem reads_selection (h : counted.Reads n nested n) :
    (selection counted).Reads n (Reader.selection nested) n := by
  refine (Reads.lift _).bind fun k => ?_
  split
  · exact .spanned ((Reads.lift _).bind fun _ => reads_spreadBody h)
  · exact reads_field h

end

/-- A set is refused where the limit is reached. -/
theorem reads_braced_refused (allowEmpty : Bool) (item : Counting Selection)
    (hn : maxSelectionDepth ≤ n) : (braced allowEmpty item).Reads n failTooDeep m := by
  refine (Reads.lift _).bind fun k => ?_
  split
  · exact .refused hn
  · exact .fail _

/-- Everywhere else it is read, and counted while its selections are. -/
theorem reads_braced (allowEmpty : Bool) {one : Counting Selection} {item : Production Selection}
    (hn : n < maxSelectionDepth) (h : one.Reads (n + 1) item.read (n + 1)) :
    (braced allowEmpty one).Reads n (Reader.braced allowEmpty item) n := by
  rw [Reader.braced, expect, bind_assoc]
  refine (Reads.lift _).bind fun k => ?_
  split
  · refine .entered hn ((Reads.lift _).bind fun opener => ?_)
    refine (h.untilClosing _ _).bind fun selections => ?_
    split
    · exact .fail _
    · exact (Reads.lift _).bind fun _ => .left (.pure _)
  · exact .fail _

/-- With `n` sets open and `depth` more allowed, a set is read as it is without a counter. As many
sets are open behind it. -/
theorem reads_selectionSet (allowEmpty : Bool) {levels depth : Nat}
    (h : n + depth = maxSelectionDepth) (hle : depth ≤ levels) :
    (selectionSet allowEmpty levels).Reads n (Production.selectionSet allowEmpty depth).read n := by
  induction levels generalizing n depth allowEmpty with
  | zero =>
    obtain rfl := Nat.le_zero.mp hle
    exact .lift _
  | succ levels ih =>
    cases depth with
    | zero => exact reads_braced_refused allowEmpty _ (Nat.le_of_eq h.symm)
    | succ depth =>
      exact reads_braced allowEmpty (by omega) (reads_selection (ih false (by omega) (by omega)))

/-! ## Documents -/

/-- Every definition starts and ends with no set open. -/
theorem reads_ownSelections : ownSelections.Reads 0 Reader.ownSelections 0 :=
  reads_selectionSet true (Nat.zero_add _) (Nat.le_refl _)

theorem reads_shorthand : shorthand.Reads 0 Reader.shorthand 0 :=
  .spanned (reads_ownSelections.bind fun _ => .pure _)

theorem reads_operation (kind : OperationKind) (keyword : Lexeme) :
    (operation kind keyword).Reads 0 (Reader.operation kind keyword) 0 := by
  refine .spanned ?_
  refine (Reads.lift _).bind fun token => (Reads.lift _).bind fun operationName => ?_
  refine (Reads.lift _).bind fun definitions => (Reads.lift _).bind fun directives => ?_
  exact reads_ownSelections.whenAt.bind fun selections => .pure _

theorem reads_fragment : fragment.Reads 0 Reader.fragment 0 := by
  refine .spanned ?_
  refine (Reads.lift _).bind fun _ => (Reads.lift _).bind fun fragmentName => ?_
  refine (Reads.lift _).bind fun _ => (Reads.lift _).bind fun typeCondition => ?_
  refine (Reads.lift _).bind fun directives => ?_
  exact reads_ownSelections.whenAt.bind fun selections => .pure _

theorem reads_definition : definition.Reads 0 Reader.definition 0 := by
  refine (Reads.lift _).bind fun k => ?_
  cases k with
  | curlyOpen => exact reads_shorthand.bind fun _ => .pure _
  | query => exact (reads_operation _ _).bind fun _ => .pure _
  | mutation => exact (reads_operation _ _).bind fun _ => .pure _
  | subscription => exact (reads_operation _ _).bind fun _ => .pure _
  | fragment => exact reads_fragment.bind fun _ => .pure _
  | _ => exact .lift _

theorem reads_definitions : definitions.Reads 0 Reader.definitions 0 :=
  Reads.repeatWhile reads_definition _

/-- **Documents are parsed with a counter as without**: every text is the same document, with no set
open at its end, or is refused with the same error. -/
theorem parse_eq (text : String) : parse text = (Document.parse text).map fun d => (d, 0) := by
  have h : document.Reads 0 (advance >>= fun _ => Reader.definitions >>= fun ds => cursor >>=
      fun k => Pure.pure ⟨ds, .start, k.position⟩) 0 := by
    refine (Reads.lift _).bind fun _ => reads_definitions.bind fun ds => ?_
    exact (Reads.lift _).bind fun k => .pure _
  rw [parse, h, Document.parse_eq, Reader.bind_apply, Reader.bind_apply]
  cases advance (.ofText text) with
  | error e => rfl
  | ok q =>
    dsimp only [Except.bind]
    rw [Reader.bind_apply]
    cases Reader.definitions q.2 <;> rfl

end GraphQLSyntax.Counting
