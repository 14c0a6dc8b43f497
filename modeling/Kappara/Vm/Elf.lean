import Kappara.Lib.ByteMemory

/-! ELF images as the loaders read them.

A loader has the bytes of a file in a buffer of kernel memory and adds 64-bit
offsets to its address. An image is that memory seen from the buffer, so an offset
at or above the size of the file, or one that wraps, names other kernel memory. -/

set_option autoImplicit false

namespace Kappara.Vm

abbrev Va := BitVec 64

structure Image where
  bytes : ByteMemory.Memory 64
  size : Nat
  bounded : size < 2 ^ 32

section

variable (img : Image) (off : Va)

def Image.le (n : Nat) : Nat := ByteMemory.ofLe (ByteMemory.loadBytes img.bytes off n)

def Image.u64 : Va := BitVec.ofNat 64 (img.le off 8)

structure Ehdr where
  type : Nat
  machine : Nat
  entry : Va
  phoff : Va
  phentsize : Nat
  phnum : Nat

def Image.ehdr : Ehdr where
  type := img.le 16 2
  machine := img.le 18 2
  entry := img.u64 24
  phoff := img.u64 32
  phentsize := img.le 54 2
  phnum := img.le 56 2

-- The magic, ELFCLASS64 and little endian, for AArch64.
def Image.isElf : Bool :=
  img.bytes 0 == 0x7f && img.bytes 1 == 0x45 && img.bytes 2 == 0x4c && img.bytes 3 == 0x46 &&
    img.bytes 4 == 2 && img.bytes 5 == 1 && img.ehdr.machine == 0xb7

def etExec : Nat := 2

def etDyn : Nat := 3

def ptLoad : Nat := 1

structure Phdr where
  type : Nat
  offset : Va
  vaddr : Va
  filesz : Va
  memsz : Va

def Image.phdrOff (i : Nat) : Va := img.ehdr.phoff + BitVec.ofNat 64 i * BitVec.ofNat 64 img.ehdr.phentsize

def Image.phdr (i : Nat) : Phdr :=
  let off := img.phdrOff i
  { type := img.le off 4
    offset := img.u64 (off + 8)
    vaddr := img.u64 (off + 16)
    filesz := img.u64 (off + 32)
    memsz := img.u64 (off + 40) }

def Phdr.load (ph : Phdr) : Bool := ph.type == ptLoad

-- A file given by its bytes that are not zero.
def Image.ofBytes (bytes : List (Nat × BitVec 8)) (size : Nat) (bounded : size < 2 ^ 32) : Image where
  bytes off := (bytes.lookup off.toNat).getD 0
  size
  bounded

-- The header of an executable with its program headers right behind it.
def execHeader (type phnum : BitVec 8) : List (Nat × BitVec 8) :=
  [(0, 0x7f), (1, 0x45), (2, 0x4c), (3, 0x46), (4, 2), (5, 1), (16, type), (18, 0xb7), (32, 64), (54, 56), (56, phnum)]

/-- Every byte of a range read from the buffer belongs to the file. -/
def Image.holds (len : Nat) : Prop := ∀ k < len, (off + BitVec.ofNat 64 k).toNat < img.size

end

/-- As a comparison of numbers: the range lies in front of the end and does not wrap. -/
theorem Image.holds_iff (img : Image) (off : Va) (len : Nat) (fits : len ≤ 2 ^ 64) :
    img.holds off len ↔ len = 0 ∨ off.toNat + len ≤ img.size := by
  have bounded := img.bounded
  have place : ∀ k < len, (off + BitVec.ofNat 64 k).toNat = (off.toNat + k) % 2 ^ 64 := by
    intro k below
    rw [BitVec.toNat_add, BitVec.toNat_ofNat, Nat.mod_eq_of_lt (show k < 2 ^ 64 by omega)]
  constructor
  · intro inside
    by_cases none : len = 0
    · exact .inl none
    have first := inside 0 (by omega)
    rw [place 0 (by omega)] at first
    -- a range that runs past the end has a byte right at the end
    by_contra outside
    have last := inside (img.size - off.toNat) (by omega)
    rw [place _ (by omega), Nat.add_sub_cancel' (by omega), Nat.mod_eq_of_lt (by omega)] at last
    exact Nat.lt_irrefl _ last
  · rintro (rfl | inside) k below
    · exact absurd below (Nat.not_lt_zero k)
    · rw [place k below]
      omega

end Kappara.Vm
