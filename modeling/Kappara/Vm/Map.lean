import Kappara.Vm.Elf

/-! Page tables of a process.

A vm_map owns a level-0, a level-1 and a level-2 table. Level 2 starts as a copy of
the boot table's 512 block entries; the first user page of a 2 MB region replaces
the entry by a level-3 table of its own. Both indices are taken modulo 512. -/

set_option autoImplicit false

namespace Kappara.Vm

abbrev Page := Nat

def execVa : Va := 0x20000000
def execSize : Va := 0x01000000
def execStackVa : Va := 0x21000000
def execStackSize : Va := 0x00200000
def execStackTop : Va := 0x21200000
def execHeapVa : Va := 0x21200000
def execHeapSize : Va := 0x00400000
def anonVa : Va := 0x22000000
def anonSize : Va := 0x08000000
def ldVa : Va := 0x30000000
def ldSize : Va := 0x00100000
def libcVa : Va := 0x38000000
def libcSize : Va := 0x00200000
def dlopenVa : Va := 0x39000000
def dlopenSize : Va := 0x00200000
def dlopenSlotSize : Va := 0x00080000

-- x & ~PAGE_MASK, and the same after adding PAGE_SIZE - 1.
def alignDown (x : Va) : Va := x &&& ~~~0xfff#64

def alignUp (x : Va) : Va := alignDown (x + 0xfff)

-- A page count kept in an unsigned.
def pageCount (bytes : Va) : Nat := bytes.toNat / 4096 % 2 ^ 32

-- The rounds of a loop from one address below another, a page at a time.
def rounds (start stop : Va) : Nat := (stop.toNat - start.toNat + 4095) / 4096

def l2Idx (va : Va) : Fin 512 := Fin.ofNat 512 (va.toNat / 2 ^ 21)

def l3Idx (va : Va) : Fin 512 := Fin.ofNat 512 (va.toNat / 2 ^ 12)

-- A block copied from the boot table, or a level-3 table with its page entries.
inductive L2Entry where
  | block (desc : BitVec 64)
  | table (l3 : Page) (entries : Fin 512 → Option Page)

-- dlopen_slots[s]; a slot with base 0 is free.
abbrev DlSlot := Option (Va × List (BitVec 8))

structure Fields where
  heapBrk : Va
  anonNext : Va
  slots : Fin 4 → DlSlot

structure VmMap where
  l0 : Page
  l1 : Page
  l2 : Page
  entries : Fin 512 → L2Entry
  fields : Fields

variable (vm : VmMap) (free : List Page) (va : Va)

-- mmu_vmap_user_va_to_kva, as the page
def VmMap.lookup : Option Page :=
  match vm.entries (l2Idx va) with
  | .block _ => none
  | .table _ pages => pages (l3Idx va)

def VmMap.setTable (l3 : Page) (pages : Fin 512 → Option Page) : VmMap :=
  { vm with entries := Function.update vm.entries (l2Idx va) (.table l3 pages) }

-- The free list is popped where the allocator grants a page; pmm_free ignores a null pointer.
def pmmAlloc (grant : Bool) : List Page → Option Page × List Page
  | [] => (none, [])
  | p :: free => if grant then (some p, free) else (none, p :: free)

def pmmFree : Option Page → List Page → List Page
  | none, free => free
  | some p, free => p :: free

-- pmm_alloc and mmu_vmap_map_user_4k: the page, and a level-3 table where there is none. Without
-- the table the page goes back.
def mapUser4k (page table : Bool) : Option VmMap × List Page :=
  match pmmAlloc page free with
  | (none, free₁) => (none, free₁)
  | (some p, free₁) =>
    match vm.entries (l2Idx va) with
    | .table l3 pages => (some (vm.setTable va l3 (Function.update pages (l3Idx va) (some p))), free₁)
    | .block _ =>
      match pmmAlloc table free₁ with
      | (none, free₂) => (none, p :: free₂)
      | (some l3, free₂) => (some (vm.setTable va l3 (Function.update (fun _ => none) (l3Idx va) (some p))), free₂)

def unmapUser4k : VmMap × List Page :=
  match vm.entries (l2Idx va) with
  | .block _ => (vm, free)
  | .table l3 pages =>
    match pages (l3Idx va) with
    | none => (vm, free)
    | some p => (vm.setTable va l3 (Function.update pages (l3Idx va) none), p :: free)

def noFields : Fields := ⟨0, 0, fun _ => none⟩

-- mmu_vmap_create: what was granted goes back where a page is missing.
def vmMapCreate (boot : Fin 512 → BitVec 64) (free : List Page) (a b c : Bool) : Option VmMap × List Page :=
  let first := pmmAlloc a free
  let second := pmmAlloc b first.2
  let third := pmmAlloc c second.2
  match first.1, second.1, third.1 with
  | some l0, some l1, some l2 =>
    (some { l0, l1, l2, entries := fun i => .block (boot i), fields := noFields }, third.2)
  | l0, l1, l2 => (none, pmmFree l2 (pmmFree l1 (pmmFree l0 third.2)))

-- The places of a map that hold pages.
inductive Spot where
  | l0
  | l1
  | l2
  | l3 (i : Fin 512)
  | user (i j : Fin 512)
  deriving DecidableEq

def VmMap.page : Spot → Option Page
  | .l0 => some vm.l0
  | .l1 => some vm.l1
  | .l2 => some vm.l2
  | .l3 i =>
    match vm.entries i with
    | .block _ => none
    | .table l3 _ => some l3
  | .user i j =>
    match vm.entries i with
    | .block _ => none
    | .table _ pages => pages j

-- The order in which mmu_vmap_destroy walks the map.
def spots : List Spot :=
  (List.finRange 512).flatMap (fun i => (List.finRange 512).map (.user i) ++ [.l3 i]) ++ [.l0, .l1, .l2]

def vmapDestroy : List Page := (spots.filterMap vm.page).reverse ++ free

-- vmap_copyin finds every page it goes through mapped.
def copyinPages (len : Nat) : Nat := if len = 0 then 0 else (va.toNat % 4096 + len + 4095) / 4096

def copyinOk (len : Nat) : Bool :=
  (List.range (copyinPages va len)).all fun k => (vm.lookup (alignDown va + BitVec.ofNat 64 (4096 * k))).isSome

end Kappara.Vm
