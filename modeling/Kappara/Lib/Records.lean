import Kappara.Lib.Basic

/-! Fixed-size records packed one after the other into a block of bytes.

A block holds as many whole records as fit; the bytes behind the last one belong
to none. Fields are little endian. -/

set_option autoImplicit false

namespace Records

abbrev Bytes (n : Nat) := Fin n → Byte

variable {n r c : Nat}

theorem inside (fits : c * r ≤ n) (i : Fin c) (k : Fin r) : r * i + k < n := by
  have last : r * (i + 1) ≤ r * c := Nat.mul_le_mul_left r i.isLt
  rw [Nat.mul_comm r c, Nat.mul_succ] at last
  omega

def record (fits : c * r ≤ n) (block : Bytes n) (i : Fin c) : Bytes r :=
  fun k => block ⟨r * i + k, inside fits i k⟩

def setRecord [NeZero r] (block : Bytes n) (i : Fin c) (value : Bytes r) : Bytes n :=
  fun k => if k.val / r = i then value (Fin.ofNat r k) else block k

section
variable [NeZero r] (fits : c * r ≤ n) (block : Bytes n) (value : Bytes r)

theorem record_setRecord_self (i : Fin c) : record fits (setRecord block i value) i = value := by
  funext k
  have place : (r * i.val + k.val) / r = i.val := by
    rw [Nat.mul_add_div (Nat.pos_of_neZero r), Nat.div_eq_of_lt k.isLt, Nat.add_zero]
  have offset : Fin.ofNat r (r * i.val + k.val) = k := by
    apply Fin.ext
    simp [Nat.mod_eq_of_lt k.isLt]
  simp only [record, setRecord, place, if_true, offset]

theorem record_setRecord_of_ne {i j : Fin c} (other : j ≠ i) :
    record fits (setRecord block i value) j = record fits block j := by
  funext k
  have place : (r * j.val + k.val) / r = j.val := by
    rw [Nat.mul_add_div (Nat.pos_of_neZero r), Nat.div_eq_of_lt k.isLt, Nat.add_zero]
  have apart : j.val ≠ i.val := fun same => other (Fin.ext same)
  simp [record, setRecord, place, if_neg apart]

end

/-- The word stored as four bytes, lowest first. -/
def word32 (a b c d : Byte) : BitVec 32 := d ++ c ++ b ++ a

def wordByte (word : BitVec 32) (k : Nat) : Byte := word.extractLsb' (8 * k) 8

theorem word32_wordByte (word : BitVec 32) :
    word32 (wordByte word 0) (wordByte word 1) (wordByte word 2) (wordByte word 3) = word := by
  apply BitVec.eq_of_getLsbD_eq
  intro k bound
  simp only [word32, wordByte, BitVec.getLsbD_append]
  by_cases first : k < 8
  · simp [first]
  by_cases second : k < 16
  · simp [first, show k - 8 < 8 by omega, show 8 + (k - 8) = k by omega]
  by_cases third : k < 24
  · simp [first, show ¬ k - 8 < 8 by omega, show k - 8 - 8 < 8 by omega, show 16 + (k - 8 - 8) = k by omega]
  · simp [first, show ¬ k - 8 < 8 by omega, show ¬ k - 8 - 8 < 8 by omega, show k - 8 - 8 - 8 < 8 by omega,
      show 24 + (k - 8 - 8 - 8) = k by omega]

end Records
