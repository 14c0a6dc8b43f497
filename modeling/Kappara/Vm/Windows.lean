import Kappara.Vm.Calls

/-! The user windows of the address space and what the loaders' window test admits.

A segment passes the test by its wrapped end. If the end does not wrap, or the page
count cut to 32 bits comes out as at most one page, its pages are in the window.
Otherwise the count is so large, or the start so high, that some page is above
every window. -/

set_option autoImplicit false

namespace Kappara.Vm

open BitVec (le_def toNat_add toNat_ofNat)

inductive Window where
  | exec
  | stack
  | heap
  | anon
  | ld
  | libc
  | dlopen
  deriving DecidableEq

def Window.start : Window → Va
  | .exec => execVa
  | .stack => execStackVa
  | .heap => execHeapVa
  | .anon => anonVa
  | .ld => ldVa
  | .libc => libcVa
  | .dlopen => dlopenVa

def Window.stop : Window → Va
  | .exec => execVa + execSize
  | .stack => execStackVa + execStackSize
  | .heap => execHeapVa + execHeapSize
  | .anon => anonVa + anonSize
  | .ld => ldVa + ldSize
  | .libc => libcVa + libcSize
  | .dlopen => dlopenVa + dlopenSize

def Window.covers (w : Window) (va : Va) : Prop := w.start ≤ va ∧ va < w.stop

/-- The 2 MB behind a level-2 entry have no address in a window. -/
def outside (i : Fin 512) : Prop := ∀ w : Window, w.stop.toNat ≤ i * 2 ^ 21 ∨ (i + 1) * 2 ^ 21 ≤ w.start.toNat

theorem Window.bounds (w : Window) : 4096 ∣ w.start.toNat ∧ 4096 ∣ w.stop.toNat ∧ w.stop.toNat < 2 ^ 30 := by
  cases w <;> decide

theorem Window.apart {w w' : Window} (other : w ≠ w') : w.stop ≤ w'.start ∨ w'.stop ≤ w.start := by
  revert other
  cases w <;> cases w' <;> decide

theorem Window.covers_lt {w : Window} {va : Va} (inside : w.covers va) : va.toNat < 2 ^ 30 := by
  have bounds := w.bounds
  have below := BitVec.lt_def.mp inside.2
  omega

theorem Window.covers_add {w : Window} {va : Va} {count k : Nat} (low : w.start.toNat ≤ va.toNat)
    (high : va.toNat + 4096 * count ≤ w.stop.toNat) (below : k < count) :
    w.covers (va + BitVec.ofNat 64 (4096 * k)) := by
  have place : (va + BitVec.ofNat 64 (4096 * k)).toNat = va.toNat + 4096 * k := by
    rw [toNat_add, toNat_ofNat]
    omega
  rw [Window.covers, le_def, BitVec.lt_def]
  omega

theorem Window.covers_region {w : Window} {va : Va} (inside : w.covers va) : ¬outside (l2Idx va) := by
  intro out
  have small := Window.covers_lt inside
  have index : (l2Idx va).val = va.toNat / 2 ^ 21 := by
    simp only [l2Idx, Fin.ofNat]
    omega
  have low := BitVec.le_def.mp inside.1
  have high := BitVec.lt_def.mp inside.2
  have apart := out w
  omega

section Align

theorem clear_toNat (x : Va) {mask : Va} {k : Nat} (mask_low : ∀ i < 64, mask.getLsbD i = decide (i < k)) :
    (x &&& ~~~mask).toNat = x.toNat / 2 ^ k * 2 ^ k := by
  have same : x &&& ~~~mask = x >>> k <<< k := by
    apply BitVec.eq_of_getLsbD_eq
    intro i below
    simp only [BitVec.getLsbD_and, BitVec.getLsbD_not, mask_low i below]
    by_cases low : i < k
    · simp [low]
    · simp [low, below, Nat.add_sub_cancel' (Nat.le_of_not_lt low)]
  rw [same, BitVec.toNat_shiftLeft, BitVec.toNat_ushiftRight, Nat.shiftRight_eq_div_pow, Nat.shiftLeft_eq]
  exact Nat.mod_eq_of_lt ((Nat.div_mul_le_self _ _).trans_lt x.isLt)

theorem alignDown_toNat (x : Va) : (alignDown x).toNat = x.toNat / 4096 * 4096 := by
  exact clear_toNat (k := 12) x (by decide)

theorem alignUp_toNat {x : Va} (small : x.toNat + 4095 < 2 ^ 64) :
    (alignUp x).toNat = (x.toNat + 4095) / 4096 * 4096 := by
  have mask : (0xfff : Va).toNat = 4095 := rfl
  rw [alignUp, alignDown_toNat, toNat_add]
  omega

end Align

section Segments

variable {va memsz lo hi : Va}

-- The end of the segment does not wrap, or it falls short of that by a multiple of 2^32 pages.
def fits (va memsz : Va) : Bool :=
  va.toNat + memsz.toNat < 2 ^ 64 || (2 ^ 64 - (va.toNat % 4096 + memsz.toNat)) / 4096 % 2 ^ 32 == 0

theorem segPages_eq (small : (va + memsz).toNat < 2 ^ 32) : segPages va memsz =
    ((((va + memsz).toNat + 4095) / 4096 * 4096 + 2 ^ 64 - va.toNat / 4096 * 4096) % 2 ^ 64) / 4096 % 2 ^ 32 := by
  rw [segPages, pageCount, BitVec.toNat_sub, alignUp_toNat (by omega), alignDown_toNat]
  congr 3
  omega

theorem segPages_inside (small : hi.toNat < 2 ^ 30) (low : 4096 ∣ lo.toNat) (high : 4096 ∣ hi.toNat) (above : lo ≤ va)
    (below : va + memsz ≤ hi) (fit : fits va memsz = true) : segPages va memsz = 0 ∨
      lo.toNat ≤ (alignDown va).toNat ∧ (alignDown va).toNat + 4096 * segPages va memsz ≤ hi.toNat := by
  rw [le_def] at above below
  rw [alignDown_toNat, segPages_eq (by omega)]
  rw [toNat_add] at below ⊢
  have start := va.isLt
  have size := memsz.isLt
  simp only [fits, Bool.or_eq_true, decide_eq_true_eq, beq_iff_eq] at fit
  generalize va.toNat = v at *
  generalize memsz.toNat = z at *
  generalize lo.toNat = l at *
  generalize hi.toNat = h at *
  cases fit with
  | inl plain | inr short => omega

/-- A segment that wraps past the test asks for a page above every window. -/
theorem segPages_above (small : hi.toNat < 2 ^ 30) (below : va + memsz ≤ hi) (wraps : fits va memsz = false) :
    ∃ k < segPages va memsz, 2 ^ 30 ≤ (alignDown va + BitVec.ofNat 64 (4096 * k)).toNat := by
  have count : 0 < segPages va memsz ∧ (2 ^ 30 ≤ va.toNat ∨ 2 ^ 18 < segPages va memsz) := by
    rw [le_def] at below
    rw [segPages_eq (by omega)]
    rw [toNat_add] at below ⊢
    have start := va.isLt
    simp only [fits, Bool.or_eq_false_iff, decide_eq_false_iff_not, beq_eq_false_iff_ne] at wraps
    generalize va.toNat = v at *
    generalize memsz.toNat = z at *
    generalize hi.toNat = h at *
    omega
  by_cases high : 2 ^ 30 ≤ va.toNat
  · refine ⟨0, count.1, ?_⟩
    simp only [Nat.mul_zero, BitVec.add_zero, alignDown_toNat]
    omega
  · -- the count alone takes the segment past the windows
    refine ⟨(2 ^ 30 - (alignDown va).toNat) / 4096, by omega, ?_⟩
    rw [toNat_add, toNat_ofNat, alignDown_toNat]
    omega

end Segments

end Kappara.Vm
