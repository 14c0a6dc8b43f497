import Kappara.Lib.Basic
import Mathlib.Logic.Function.Basic

/-! The bounded string copy (strncpy of lib/libc/src/string.c). -/

set_option autoImplicit false

namespace Kappara.Libc

open Function (update)

/-- A string without its terminator. -/
structure CString where
  bytes : List Byte
  plain : ∀ b ∈ bytes, b ≠ 0#8

def CString.at (src : CString) (i : Nat) : Byte := src.bytes.getD i 0#8

/-- dst with the indices stored to, in their order. -/
structure Dst where
  bytes : Nat → Byte
  stored : List Nat := []

def Dst.store (dst : Dst) (d : Nat) (b : Byte) : Dst :=
  { bytes := update dst.bytes d b, stored := dst.stored ++ [d] }

/-- The first loop, up to what is left of n, where d points in dst, and dst. The terminator is stored
without being counted. -/
def copyLoop (src : CString) : Nat → Nat → Dst → Nat × Nat × Dst
  | 0, d, dst => (0, d, dst)
  | n + 1, d, dst =>
    let copied := dst.store d (src.at d)
    if src.at d = 0#8 then (n + 1, d + 1, copied) else copyLoop src n (d + 1) copied

def fillLoop : Nat → Nat → Dst → Dst
  | 0, _, dst => dst
  | n + 1, d, dst => fillLoop n (d + 1) (dst.store d 0#8)

def strncpy (dst : Nat → Byte) (src : CString) (n : Nat) : Dst :=
  let (left, d, copied) := copyLoop src n 0 { bytes := dst }
  fillLoop left d copied

theorem fillLoop_bytes (n d : Nat) (dst : Dst) (i : Nat) :
    (fillLoop n d dst).bytes i = if d ≤ i ∧ i < d + n then 0#8 else dst.bytes i := by
  induction n generalizing d dst with
  | zero => simp [fillLoop]
  | succ n ih =>
    rw [fillLoop, ih, Dst.store]
    grind

theorem fillLoop_stored (n d : Nat) (dst : Dst) : (fillLoop n d dst).stored = dst.stored ++ List.range' d n := by
  induction n generalizing d dst with
  | zero => simp [fillLoop]
  | succ n ih => simp [fillLoop, ih, Dst.store, List.range'_succ]

theorem CString.at_eq_zero {src : CString} {i : Nat} : src.at i = 0#8 ↔ src.bytes.length ≤ i := by
  rw [CString.at, List.getD_eq_getElem?_getD]
  rcases Nat.lt_or_ge i src.bytes.length with inside | beyond
  · simp [inside, src.plain _ (List.getElem_mem inside)]
  · simp [beyond]

section

variable (src : CString) (n d : Nat) (dst : Dst) (inside : d ≤ src.bytes.length)
include inside

/-- Both loops from d on: where the string ends before, they store one byte more than n. -/
theorem copyLoop_fillLoop_stored :
    (fillLoop (copyLoop src n d dst).1 (copyLoop src n d dst).2.1 (copyLoop src n d dst).2.2).stored =
      dst.stored ++ List.range' d (if src.bytes.length < d + n then n + 1 else n) := by
  induction n generalizing d dst with
  | zero => simp [copyLoop, fillLoop, Nat.not_lt.mpr inside]
  | succ n ih =>
    rw [copyLoop]
    split
    next ended =>
      rw [CString.at_eq_zero] at ended
      rw [fillLoop_stored, if_pos (by omega)]
      simp [Dst.store, List.range'_succ]
    next goes =>
      rw [CString.at_eq_zero] at goes
      rw [ih (d + 1) _ (by omega)]
      have counted : d + 1 + n = d + (n + 1) := by omega
      rw [counted]
      split <;> simp [Dst.store, List.range'_succ]

theorem copyLoop_fillLoop_bytes (i : Nat) :
    (fillLoop (copyLoop src n d dst).1 (copyLoop src n d dst).2.1 (copyLoop src n d dst).2.2).bytes i =
      if d ≤ i ∧ (i < d + n ∨ i = d + n ∧ src.bytes.length < d + n) then src.at i else dst.bytes i := by
  induction n generalizing d dst with
  | zero =>
    rw [if_neg (by omega)]
    rfl
  | succ n ih =>
    rw [copyLoop]
    split
    next ended =>
      rw [fillLoop_bytes, ended, Dst.store]
      have := @CString.at_eq_zero src i
      rw [CString.at_eq_zero] at ended
      grind
    next goes =>
      rw [CString.at_eq_zero] at goes
      rw [ih (d + 1) _ (by omega), Dst.store]
      grind

end

/-- The stores go to the first n bytes and nowhere else exactly if the string has at least n. -/
theorem strncpy_exact_iff (dst : Nat → Byte) (src : CString) (n : Nat) :
    ((∀ i, (strncpy dst src n).bytes i = if i < n then src.at i else dst i) ∧
        ∀ i, i ∈ (strncpy dst src n).stored ↔ i < n) ↔
      n ≤ src.bytes.length := by
  have stored : (strncpy dst src n).stored = _ := copyLoop_fillLoop_stored src n 0 _ (Nat.zero_le _)
  have bytes (i : Nat) : (strncpy dst src n).bytes i = _ :=
    copyLoop_fillLoop_bytes src n 0 { bytes := dst } (Nat.zero_le _) i
  simp only [bytes, stored, List.nil_append, List.mem_range'_1]
  constructor
  · intro exact_
    have behind := exact_.2 n
    grind
  · intro fits
    constructor <;> intro i <;> grind

theorem strncpy_writes_behind : 1 ∈ (strncpy (fun _ => 0#8) ⟨[], by simp⟩ 1).stored := by decide

end Kappara.Libc
