import Mathlib.Algebra.Group.Nat.Defs
import Mathlib.Data.Nat.Bitwise
import Mathlib.Logic.ExistsUnique
import GraphQLSyntax.Tree.TypeRef

/-!
# Marks as a number

The lists around a name and the marks of all levels are a number of lists and a mask.

* `Wrapping.testBit_mask`: bit `l` of the mask is the mark of level `l`.
* `TypeRef.isNonNullAt_eq`: so a mark can be read off the mask, where 64 bits are enough.
* `Wrapping.mask_lt`: a mask has one bit for each list and one for the name.
* `Wrapping.existsUnique_of_mask_lt`: every such number is the mask of one wrapping.
-/

namespace GraphQLSyntax.Wrapping

theorem testBit_zero_mark (nonNull : Bool) (n : Nat) :
    (nonNull.toNat + 2 * n).testBit 0 = nonNull := by
  rw [Nat.testBit_zero, Nat.add_mul_mod_self_left]
  cases nonNull <;> rfl

/-- The mask has the marks of all levels as its bits. -/
theorem testBit_mask (w : Wrapping) (level : Nat) :
    w.mask.testBit level = w.isNonNullAt level := by
  induction w generalizing level with
  | named nonNull =>
    cases level with
    | zero => exact testBit_zero_mark nonNull 0
    | succ level =>
      have hhalf : nonNull.toNat / 2 = 0 := by cases nonNull <;> rfl
      rw [mask, Nat.testBit_add_one, hhalf, Nat.zero_testBit]
      rfl
  | list nonNull items ih =>
    cases level with
    | zero => exact testBit_zero_mark nonNull items.mask
    | succ level =>
      have hhalf : (nonNull.toNat + 2 * items.mask) / 2 = items.mask := by
        have := nonNull.toNat_le
        omega
      rw [mask, Nat.testBit_add_one, hhalf, ih]
      rfl

/-- Below the name, no level is marked. -/
theorem isNonNullAt_of_lt {w : Wrapping} {level : Nat} (h : w.dimensions < level) :
    w.isNonNullAt level = false := by
  induction w generalizing level with
  | named nonNull =>
    obtain ⟨level, rfl⟩ := Nat.exists_eq_succ_of_ne_zero (Nat.ne_of_gt h)
    rfl
  | list nonNull items ih =>
    obtain ⟨level, rfl⟩ := Nat.exists_eq_succ_of_ne_zero (Nat.ne_of_gt (Nat.zero_lt_of_lt h))
    exact ih (Nat.lt_of_succ_lt_succ h)

/-- A mask has one bit for each list and one for the name. -/
theorem mask_lt (w : Wrapping) : w.mask < 2 ^ (w.dimensions + 1) := by
  induction w with
  | named nonNull => cases nonNull <;> decide
  | list nonNull items ih =>
    have := nonNull.toNat_le
    rw [mask, dimensions, Nat.pow_succ]
    omega

theorem isNonNull_eq_of_mask_eq {w w' : Wrapping} (h : w.mask = w'.mask) :
    w.isNonNull = w'.isNonNull := by
  have hmark (w : Wrapping) : w.mask.testBit 0 = w.isNonNull := by
    rw [testBit_mask, isNonNullAt]
  rw [← hmark, ← hmark, h]

/-- A wrapping is known from the number of its lists and its mask. -/
theorem eq_of_mask_eq {w w' : Wrapping} (hdimensions : w.dimensions = w'.dimensions)
    (hmask : w.mask = w'.mask) : w = w' := by
  induction w generalizing w' with
  | named nonNull =>
    cases w' with
    | named nonNull' =>
      obtain rfl : nonNull = nonNull' := isNonNull_eq_of_mask_eq hmask
      rfl
    | list => cases hdimensions
  | list nonNull items ih =>
    cases w' with
    | named => cases hdimensions
    | list nonNull' items' =>
      obtain rfl : nonNull = nonNull' := isNonNull_eq_of_mask_eq hmask
      rw [dimensions, dimensions, Nat.add_right_cancel_iff] at hdimensions
      rw [mask, mask] at hmask
      obtain rfl := ih hdimensions (by omega)
      rfl

/-- Every number of so many bits is the mask of one wrapping with so many lists. -/
theorem existsUnique_of_mask_lt {lists n : Nat} (h : n < 2 ^ (lists + 1)) :
    ∃! w : Wrapping, w.dimensions = lists ∧ w.mask = n := by
  have hexists : ∃ w : Wrapping, w.dimensions = lists ∧ w.mask = n := by
    induction lists generalizing n with
    | zero =>
      refine ⟨.named (n == 1), rfl, ?_⟩
      have hcases : n = 0 ∨ n = 1 := by omega
      rcases hcases with rfl | rfl <;> rfl
    | succ lists ih =>
      obtain ⟨items, hdimensions, hmask⟩ := ih (n := n / 2) (by rw [Nat.pow_succ] at h; omega)
      refine ⟨.list (n.testBit 0) items, by rw [dimensions, hdimensions], ?_⟩
      rw [mask, hmask, Nat.toNat_testBit, Nat.pow_zero, Nat.div_one, Nat.mod_add_div]
  obtain ⟨w, hw⟩ := hexists
  exact ⟨w, hw, fun w' hw' => eq_of_mask_eq (hw'.1.trans hw.1.symm) (hw'.2.trans hw.2.symm)⟩

end GraphQLSyntax.Wrapping

namespace GraphQLSyntax.TypeRef

/-- The bit of a level is set in a mask that has it. -/
theorem and_one_shiftLeft_bne_zero (mask level : Nat) :
    (mask &&& 1 <<< level != 0) = mask.testBit level := by
  rw [Nat.one_shiftLeft, Nat.and_two_pow]
  cases mask.testBit level with
  | false => rw [Bool.toNat_false, Nat.zero_mul]; rfl
  | true => simp

/-- **The mask tells the mark of every level**, if there are no more levels than it has bits. -/
theorem isNonNullAt_eq {t : TypeRef} (h : t.dimensions < 64) (level : Nat) :
    t.isNonNullAt level = t.wrapping.isNonNullAt level := by
  unfold isNonNullAt
  by_cases hlevel : level ≤ t.dimensions
  · rw [decide_eq_true hlevel, Bool.true_and, bit?, if_pos (Nat.lt_of_le_of_lt hlevel h),
      Option.any_some, and_one_shiftLeft_bne_zero]
    exact t.wrapping.testBit_mask level
  · rw [decide_eq_false hlevel, Bool.false_and]
    exact (Wrapping.isNonNullAt_of_lt (Nat.lt_of_not_le hlevel)).symm

end GraphQLSyntax.TypeRef
