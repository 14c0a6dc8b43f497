import Kappara.Lib.Basic

/-! Byte-addressed memory over a wrapping address space.

Addresses are machine words, so a range that runs past the top of the space
continues at zero, as the hardware adds them. Multi-byte fields are little
endian and are read from a byte list, the form in which a copied structure
reaches its reader. -/

set_option autoImplicit false

namespace ByteMemory

abbrev Memory (w : Nat) := BitVec w → Byte

variable {w : Nat}

def loadBytes (mem : Memory w) (a : BitVec w) : Nat → List Byte
  | 0 => []
  | n + 1 => mem a :: loadBytes mem (a + 1) n

section

variable (mem : Memory w) (a : BitVec w) (n k : Nat)

/-- Overwrite the n addresses from a on; src gives the byte for each offset. -/
def storeBytes (src : Nat → Byte) : Memory w :=
  fun b => if (b - a).toNat < n then src (b - a).toNat else mem b

/-- Little-endian value of a byte list. -/
def ofLe : List Byte → Nat
  | [] => 0
  | b :: bytes => b.toNat + 256 * ofLe bytes

/-- Byte k of a value in little-endian order. -/
def byteOf (value k : Nat) : Byte := BitVec.ofNat 8 (value / 256 ^ k)

/-- The field of n bytes at offset off of a copied structure. -/
def field (bytes : List Byte) (off n : Nat) : Nat := ofLe ((bytes.drop off).take n)

theorem next_add : a + 1 + BitVec.ofNat w k = a + BitVec.ofNat w (k + 1) := by
  rw [BitVec.add_assoc, Nat.add_comm k 1, BitVec.ofNat_add]
  rfl

theorem loadBytes_drop :
    (loadBytes mem a n).drop k = loadBytes mem (a + BitVec.ofNat w k) (n - k) := by
  induction k generalizing a n with
  | zero => simp
  | succ k ih =>
    cases n with
    | zero => simp [loadBytes]
    | succ n => simp only [loadBytes, List.drop_succ_cons, ih, next_add, Nat.add_sub_add_right]

theorem loadBytes_take (bound : k ≤ n) :
    (loadBytes mem a n).take k = loadBytes mem a k := by
  induction k generalizing a n with
  | zero => simp [loadBytes]
  | succ k ih =>
    obtain ⟨n, rfl⟩ : ∃ m, n = m + 1 := ⟨n - 1, by omega⟩
    simp only [loadBytes, List.take_succ_cons, ih (a + 1) n (by omega)]

end

variable {n : Nat} {a : BitVec w}

/-- A field of a copied structure is the word in memory at the field's own address. -/
theorem field_loadBytes (mem : Memory w) (a : BitVec w) (n off len : Nat) (inside : off + len ≤ n) :
    field (loadBytes mem a n) off len = ofLe (loadBytes mem (a + BitVec.ofNat w off) len) := by
  rw [field, loadBytes_drop, loadBytes_take _ _ _ _ (by omega)]

theorem byteOf_succ (value k : Nat) : byteOf value (k + 1) = byteOf (value / 256) k := by
  rw [byteOf, byteOf, Nat.div_div_eq_div_mul, Nat.pow_succ']

theorem ofLe_loadBytes {mem : Memory w} {value : Nat}
    (held : ∀ k < n, mem (a + BitVec.ofNat w k) = byteOf value k) : ofLe (loadBytes mem a n) = value % 256 ^ n := by
  induction n generalizing a value with
  | zero => simp [loadBytes, ofLe, Nat.mod_one]
  | succ n ih =>
    have first : mem a = byteOf value 0 := by simpa using held 0 (by omega)
    have rest := by
      apply ih
      intro k inside
      rw [next_add, held (k + 1) (by omega), byteOf_succ]
    rw [loadBytes, ofLe, rest, first, Nat.pow_succ', Nat.mod_mul, byteOf]
    simp

theorem storeBytes_inside {mem : Memory w} {k : Nat} {src : Nat → Byte} (inside : k < n) (small : n ≤ 2 ^ w) :
    storeBytes mem a n src (a + BitVec.ofNat w k) = src k := by
  have offset : (a + BitVec.ofNat w k - a).toNat = k := by
    rw [BitVec.add_comm, BitVec.add_sub_cancel]
    exact Nat.mod_eq_of_lt (by omega)
  rw [storeBytes, offset, if_pos inside]

theorem storeBytes_outside {mem : Memory w} {b : BitVec w} {src : Nat → Byte} (outside : n ≤ (b - a).toNat) :
    storeBytes mem a n src b = mem b := by
  rw [storeBytes, if_neg (by omega)]

theorem loadBytes_append (mem : Memory w) (a : BitVec w) (m n : Nat) :
    loadBytes mem a (m + n) = loadBytes mem a m ++ loadBytes mem (a + BitVec.ofNat w m) n := by
  rw [← List.take_append_drop m (loadBytes mem a (m + n)), loadBytes_take _ _ _ _ (by omega), loadBytes_drop,
    Nat.add_sub_cancel_left]

theorem loadBytes_eq {mem : Memory w} {bytes : List Byte}
    (held : ∀ k < bytes.length, mem (a + BitVec.ofNat w k) = bytes.getD k 0) :
    loadBytes mem a bytes.length = bytes := by
  induction bytes generalizing a with
  | nil => rfl
  | cons b bytes ih =>
    have first := held 0 (by simp)
    rw [BitVec.add_zero] at first
    rw [List.length_cons, loadBytes, first, ih]
    · rfl
    · intro k inside
      rw [next_add, held (k + 1) (by simpa using inside)]
      rfl

section Writes

/-- Bytes on their way to an address. -/
abbrev Write (w : Nat) := BitVec w × List Byte

def write (mem : Memory w) (x : Write w) : Memory w := storeBytes mem x.1 x.2.length fun k => x.2.getD k 0

/-- Every write ends at or below the start of the one before it, the first at or below the top. -/
def Below : Nat → List (Write w) → Prop
  | _, [] => True
  | top, x :: rest => x.1.toNat + x.2.length ≤ top ∧ Below x.1.toNat rest

variable {mem : Memory w} {top : Nat} {writes : List (Write w)}

section

variable (below : Below top writes)
include below

theorem Below.mono {top' : Nat} (up : top ≤ top') : Below top' writes := by
  cases writes with
  | nil => trivial
  | cons x rest => exact ⟨below.1.trans up, below.2⟩

theorem Below.above {b : BitVec w} (high : top ≤ b.toNat) : (writes.foldl write mem) b = mem b := by
  induction writes generalizing mem top with
  | nil => rfl
  | cons x rest ih =>
    obtain ⟨here, further⟩ := below
    rw [List.foldl_cons, ih further (by omega), write, storeBytes_outside]
    rw [BitVec.toNat_sub_of_le (by rw [BitVec.le_def]; omega)]
    omega

/-- Every write can be read back after all of them. -/
theorem Below.read (small : top ≤ 2 ^ w) {x : Write w} (member : x ∈ writes) :
    loadBytes (writes.foldl write mem) x.1 x.2.length = x.2 := by
  induction writes generalizing mem top with
  | nil => cases member
  | cons y rest ih =>
    obtain ⟨here, further⟩ := below
    rw [List.foldl_cons]
    cases member with
    | tail _ later => exact ih further (by omega) later
    | head =>
      apply loadBytes_eq
      intro k inside
      have place : (x.1 + BitVec.ofNat w k).toNat = x.1.toNat + k := by
        rw [BitVec.toNat_add, BitVec.toNat_ofNat, Nat.mod_eq_of_lt (show k < 2 ^ w by omega),
          Nat.mod_eq_of_lt (by omega)]
      rw [further.above (by omega), write, storeBytes_inside inside (by omega)]

theorem Below.pairwise :
    writes.Pairwise (fun x y => y.1.toNat + y.2.length ≤ x.1.toNat) ∧ ∀ x ∈ writes, x.1.toNat + x.2.length ≤ top := by
  induction writes generalizing top with
  | nil => simp
  | cons x rest ih =>
    obtain ⟨here, further⟩ := below
    obtain ⟨apart, under⟩ := ih further
    refine ⟨List.pairwise_cons.mpr ⟨under, apart⟩, List.forall_mem_cons.mpr ⟨here, fun y member => ?_⟩⟩
    have lower := under y member
    omega

end

end Writes

end ByteMemory
