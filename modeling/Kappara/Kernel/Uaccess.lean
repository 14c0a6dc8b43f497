import Kappara.Lib.ByteMemory

/-! Bounds-checked access to user memory (uts/os/core/uaccess.c).

The user windows are the literal ranges of the source; a pointer is accepted
when the whole range lies in one of them. Every access the kernel makes through
a user-supplied pointer is logged, so that later modules can say which
addresses a system call touches. -/

set_option autoImplicit false

namespace Kappara.Uaccess

open ByteMemory

abbrev Addr := BitVec 64

structure Window where
  base : Addr
  size : Addr
  deriving DecidableEq

def userWindow : Window := ⟨0x10000000, 0x00200000⟩
def execWindow : Window := ⟨0x20000000, 0x01600000⟩
def anonWindow : Window := ⟨0x22000000, 0x08000000⟩
def ldWindow : Window := ⟨0x30000000, 0x00100000⟩
def libcWindow : Window := ⟨0x38000000, 0x00200000⟩
def dlopenWindow : Window := ⟨0x39000000, 0x00200000⟩

def windows : List Window :=
  [userWindow, execWindow, anonWindow, ldWindow, libcWindow, dlopenWindow]

def userPtrOk (p n : Addr) : Bool :=
  if 2 ^ 64 ≤ p.toNat + n.toNat then false
  else
    -- a zero-length range is probed as one byte
    let stop := if n = 0 then p + 1 else p + n
    windows.any fun window => window.base ≤ p && stop ≤ window.base + window.size

/-- One access of the kernel through a user pointer; limit is the room the caller offered there,
where the call states one. -/
structure Access where
  store : Bool
  addr : Addr
  len : Nat
  limit : Option Nat
  deriving DecidableEq

structure UserSpace where
  mem : Memory 64
  log : List Access

namespace UserSpace

def load (u : UserSpace) (a : Addr) (n : Nat) : List Byte × UserSpace :=
  (loadBytes u.mem a n, { u with log := u.log ++ [⟨false, a, n, none⟩] })

def store (u : UserSpace) (a : Addr) (n : Nat) (src : Nat → Byte) (limit : Option Nat) : UserSpace :=
  { mem := storeBytes u.mem a n src, log := u.log ++ [⟨true, a, n, limit⟩] }

end UserSpace

def copyFromUser (u : UserSpace) (usrc n : Addr) : Option (List Byte) × UserSpace :=
  if userPtrOk usrc n then
    let (bytes, u) := u.load usrc n.toNat
    (some bytes, u)
  else (none, u)

def copyToUser (u : UserSpace) (udst n : Addr) (src : Nat → Byte) : Bool × UserSpace :=
  if userPtrOk udst n then (true, u.store udst n.toNat src none) else (false, u)

/-- The copy loop of strncpy_from_user at offset i, with the given number of bytes left. -/
def strncpyLoop (u : UserSpace) (usrc : Addr) (i : Nat) : Nat → Option (List Byte) × UserSpace
  | 0 => (none, u)
  | left + 1 =>
    let a := usrc + BitVec.ofNat 64 i
    if userPtrOk a 1 then
      let u' := (u.load a 1).2
      if u.mem a = 0 then (some [], u')
      else
        let (rest, u'') := strncpyLoop u' usrc (i + 1) left
        (rest.map (u.mem a :: ·), u'')
    else (none, u)

def strncpyFromUser (u : UserSpace) (usrc : Addr) (maxlen : Nat) : Option (List Byte) × UserSpace :=
  strncpyLoop u usrc 0 maxlen

def InWindow (a : Addr) (n : Nat) : Prop :=
  ∃ window ∈ windows, window.base.toNat ≤ a.toNat ∧ a.toNat + n ≤ window.base.toNat + window.size.toNat

instance (a : Addr) (n : Nat) : Decidable (InWindow a n) := inferInstanceAs (Decidable (∃ _ ∈ _, _))

section

variable (window : Window) (member : window ∈ windows)
include member

theorem window_end : (window.base + window.size).toNat = window.base.toNat + window.size.toNat := by
  revert window
  decide

theorem window_end_lt : window.base.toNat + window.size.toNat < 2 ^ 64 := by
  revert window
  decide

-- The windows neither overlap nor touch: the address after one belongs to no other.
theorem window_gap (other : Window) (otherMember : other ∈ windows) :
    window.base.toNat + window.size.toNat < other.base.toNat ∨
      other.base.toNat + other.size.toNat ≤ window.base.toNat + window.size.toNat := by
  revert window other
  decide

end

theorem userPtrOk_iff (p n : Addr) (positive : n ≠ 0) : userPtrOk p n = true ↔ InWindow p n.toNat := by
  have stopNat : p.toNat + n.toNat < 2 ^ 64 → (p + n).toNat = p.toNat + n.toNat := fun bound => by
    rw [BitVec.toNat_add, Nat.mod_eq_of_lt bound]
  simp only [userPtrOk, if_neg positive]
  by_cases overflow : 2 ^ 64 ≤ p.toNat + n.toNat
  · simp only [overflow, if_true, Bool.false_eq_true, false_iff]
    rintro ⟨window, member, -, stop⟩
    have := window_end_lt window member
    omega
  · rw [if_neg overflow, List.any_eq_true]
    refine exists_congr fun window => and_congr_right fun member => ?_
    rw [Bool.and_eq_true, decide_eq_true_iff, decide_eq_true_iff, BitVec.le_def, BitVec.le_def,
      stopNat (by omega), window_end window member]

def BytesOk (a : Addr) (n : Nat) : Prop := ∀ i < n, userPtrOk (a + BitVec.ofNat 64 i) 1 = true

theorem toNat_add_ofNat (a : Addr) (i : Nat) (bound : a.toNat + i < 2 ^ 64) :
    (a + BitVec.ofNat 64 i).toNat = a.toNat + i := by
  rw [BitVec.toNat_add, BitVec.toNat_ofNat, Nat.add_mod_mod, Nat.mod_eq_of_lt bound]

variable {a : Addr} {n : Nat}

theorem InWindow.bytesOk (inside : InWindow a n) : BytesOk a n := by
  obtain ⟨window, member, start, stop⟩ := inside
  have top := window_end_lt window member
  intro i bound
  have shifted := toNat_add_ofNat a i (by omega)
  refine (userPtrOk_iff _ 1 (by decide)).mpr ⟨window, member, ?_, ?_⟩
  · omega
  · rw [show (1 : Addr).toNat = 1 from rfl]
    omega

/-- A range whose bytes are all accepted cannot leave the window it starts in. -/
theorem BytesOk.inWindow (positive : 0 < n) (bytes : BytesOk a n) : InWindow a n := by
  induction n with
  | zero => omega
  | succ n ih =>
    rcases Nat.eq_zero_or_pos n with rfl | more
    · simpa using (userPtrOk_iff _ 1 (by decide)).mp (bytes 0 (by omega))
    · obtain ⟨window, member, start, stop⟩ := ih more (fun i bound => bytes i (by omega))
      have top := window_end_lt window member
      obtain ⟨other, otherMember, otherStart, otherStop⟩ :=
        (userPtrOk_iff _ 1 (by decide)).mp (bytes n (by omega))
      rw [toNat_add_ofNat a n (by omega), show (1 : Addr).toNat = 1 from rfl] at otherStop
      rw [toNat_add_ofNat a n (by omega)] at otherStart
      refine ⟨window, member, start, ?_⟩
      rcases window_gap window member other otherMember with below | above <;> omega

theorem bytesOk_iff (a : Addr) (n : Nat) : BytesOk a n ↔ n = 0 ∨ InWindow a n := by
  constructor
  · intro bytes
    rcases Nat.eq_zero_or_pos n with zero | positive
    · exact .inl zero
    · exact .inr (bytes.inWindow positive)
  · rintro (rfl | inside)
    · exact fun i bound => absurd bound (Nat.not_lt_zero i)
    · exact inside.bytesOk

end Kappara.Uaccess
