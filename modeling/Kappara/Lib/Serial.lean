import Kappara.Lib.Basic

/-! Wrap-around order on machine words.

Two words are compared by the sign of their difference, so the order is only
local: it is the order of the distances from a reference word as long as these
stay below half the space. -/

set_option autoImplicit false

namespace Serial

variable {w : Nat}

/-- The difference b - a, read as a signed number, is not negative. -/
def le (a b : BitVec w) : Prop := 0 ≤ (b - a).toInt

instance (a b : BitVec w) : Decidable (le a b) := inferInstanceAs (Decidable (_ ≤ _))

def dist (a b : BitVec w) : Nat := (b - a).toNat

variable {x y : BitVec w}

theorem toInt_sub_of_le (below : y.toNat ≤ x.toNat) (half : 2 * x.toNat < 2 ^ w) :
    (x - y).toInt = (x.toNat : Int) - y.toNat := by
  rw [BitVec.toInt_eq_toNat_cond, BitVec.toNat_sub_of_le below]
  omega

theorem toInt_sub_of_lt (above : x.toNat < y.toNat) (half : 2 * y.toNat < 2 ^ w) :
    (x - y).toInt = (x.toNat : Int) - y.toNat := by
  have wrapped : (x - y).toNat = 2 ^ w - y.toNat + x.toNat := by
    rw [BitVec.toNat_sub, Nat.mod_eq_of_lt (by omega)]
  rw [BitVec.toInt_eq_toNat_cond]
  omega

theorem toInt_sub (hx : 2 * x.toNat < 2 ^ w) (hy : 2 * y.toNat < 2 ^ w) :
    (x - y).toInt = (x.toNat : Int) - y.toNat := by
  rcases Nat.lt_or_ge x.toNat y.toNat with above | below
  · exact toInt_sub_of_lt above hy
  · exact toInt_sub_of_le below hx

theorem sub_sub_sub (u a b : BitVec w) : b - a = (b - u) - (a - u) := by
  grind

section Reference

variable (u : BitVec w) {a b : BitVec w}

/-- Near a reference word the signed difference is the difference of the distances. -/
theorem toInt_diff (ha : 2 * dist u a < 2 ^ w) (hb : 2 * dist u b < 2 ^ w) :
    (b - a).toInt = (dist u b : Int) - dist u a := by
  rw [sub_sub_sub u a b]
  exact toInt_sub hb ha

theorem le_iff (ha : 2 * dist u a < 2 ^ w) (hb : 2 * dist u b < 2 ^ w) : le a b ↔ dist u a ≤ dist u b := by
  rw [le, toInt_diff u ha hb]
  omega

theorem dist_sub (order : dist u a ≤ dist u b) : dist a b = dist u b - dist u a := by
  rw [dist, sub_sub_sub u a b]
  exact BitVec.toNat_sub_of_le order

theorem dist_add (n : Nat) (fits : dist u a + n < 2 ^ w) : dist u (a + BitVec.ofNat w n) = dist u a + n := by
  have moved : a + BitVec.ofNat w n - u = (a - u) + BitVec.ofNat w n := by grind
  have small : n < 2 ^ w := by omega
  rw [dist, moved, BitVec.toNat_add, BitVec.toNat_ofNat, Nat.mod_eq_of_lt small]
  exact Nat.mod_eq_of_lt fits

@[simp] theorem dist_self : dist u u = 0 := by
  simp [dist]

theorem eq_of_dist_zero (zero : dist u a = 0) : a = u := by
  have same : a - u = 0#w := BitVec.eq_of_toNat_eq (by simpa [dist] using zero)
  grind

end Reference

section Positions

/-- The word k places after base, for places of a stream that may exceed the word size. -/
def pos (base : BitVec w) (k : Nat) : BitVec w := base + BitVec.ofNat w k

variable {base : BitVec w} {j k : Nat}

@[simp] theorem pos_zero (base : BitVec w) : pos base 0 = base := by
  simp [pos]

theorem pos_add (base : BitVec w) (j n : Nat) : pos base j + BitVec.ofNat w n = pos base (j + n) := by
  rw [pos, pos, BitVec.add_assoc, BitVec.ofNat_add]

theorem dist_pos (base : BitVec w) (order : j ≤ k) (small : k < 2 ^ w) : dist (pos base j) (pos base k) = k - j := by
  obtain ⟨n, rfl⟩ := Nat.exists_eq_add_of_le order
  rw [← pos_add, dist_add _ _ (by rw [dist_self]; omega), dist_self]
  omega

theorem pos_inj (hj : j < 2 ^ w) (hk : k < 2 ^ w) (same : pos base j = pos base k) : j = k := by
  rcases Nat.le_total j k with order | order
  · have none := dist_pos base order hk
    rw [same, dist_self] at none
    omega
  · have none := dist_pos base order hj
    rw [same, dist_self] at none
    omega

/-- Between places in the lower half of the space the signed difference is the difference of the places. -/
theorem toInt_pos (base : BitVec w) (hj : 2 * j < 2 ^ w) (hk : 2 * k < 2 ^ w) :
    (pos base k - pos base j).toInt = (k : Int) - j := by
  have near {i : Nat} (small : 2 * i < 2 ^ w) : dist base (pos base i) = i := by
    rw [pos, dist_add _ _ (by rw [dist_self]; omega), dist_self, Nat.zero_add]
  rw [toInt_diff base (by rw [near hj]; exact hj) (by rw [near hk]; exact hk), near hj, near hk]

end Positions

end Serial
