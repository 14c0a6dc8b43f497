import Mathlib.Data.BitVec
import Mathlib.Data.Fintype.Sum
import Mathlib.Data.Finset.Card
import Mathlib.Data.List.FinRange
import Mathlib.Data.List.Infix
import Mathlib.Data.List.Induction
import Mathlib.Data.Nat.ModEq
import Mathlib.Tactic.IntervalCases

/-! Bytes, sizes of index types, and what is found in a table after one of its cells was written. -/

set_option autoImplicit false

abbrev Byte := BitVec 8

-- The library's instances under names: Lean names the proof inside a numeral of Fin n after the first definition that
-- has it; at these sizes it is one constant in every module.
namespace Sizes

instance one : NeZero 1 := inferInstance
instance two : NeZero 2 := inferInstance
instance eight : NeZero 8 := inferInstance
instance fifteen : NeZero 15 := inferInstance
instance sixteen : NeZero 16 := inferInstance
instance thirtyOne : NeZero 31 := inferInstance
instance thirtyTwo : NeZero 32 := inferInstance
instance sixtyFour : NeZero 64 := inferInstance
instance fiveTwelve : NeZero 512 := inferInstance
instance blocks : NeZero 268435456 := inferInstance

end Sizes

theorem Function.update_cases {A B : Type*} [DecidableEq A] {f : A → B} {a b : A} {v y : B}
    (found : update f a v b = y) : b = a ∧ v = y ∨ b ≠ a ∧ f b = y := by
  rwa [update_apply, ite_eq_iff] at found

/-- What no two cells have in common stays so if the new value shares it with no other. -/
theorem Function.update_apart {A B : Type*} [DecidableEq A] {f : A → B} {a b c : A} {v : B} {P : B → Prop}
    (apart : ∀ b c, P (f b) → P (f c) → b = c) (other : ∀ b, b ≠ a → P (f b) → ¬ P v)
    (first : P (update f a v b)) (second : P (update f a v c)) : b = c := by
  rw [update_apply] at first second
  split at first <;> split at second
  next one two => exact one.trans two.symm
  next two => exact absurd first (other c two second)
  next one _ => exact absurd second (other b one first)
  · exact apart b c first second
