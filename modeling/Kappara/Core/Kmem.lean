import Kappara.Lib.Links
import Kappara.Lib.Run

/-! The slab allocator (uts/os/core/kmem.c) over the page pool of
uts/os/core/pmm.c.

A page is named by its number. The free list of a slab is threaded through the
free objects: memory gives the pointer in the word at an address. The pages of
the pool and the slabs of a cache are kept as lists. -/

set_option autoImplicit false

namespace Kappara.Kmem

open Links
open Function (update)

def slabHeaderSize : Nat := 32

/-- The struct kmem_cache, with the size its initialisation asked for. -/
structure KmemCache where
  asked : Nat
  objSize : Nat
  objsPerSlab : Nat
  slabs : List Nat
  totalObjs : Nat
  freeObjs : Nat

/-- The header of a slab page; a page without one does not carry the magic number. -/
structure Slab where
  freeCount : Nat
  cache : Nat
  freelist : Option Nat

/-- The caches by identity, the first eight of them those of kmalloc. An object a client holds is
recorded in live with the size it asked for. -/
structure Heap where
  caches : Nat → Option KmemCache
  slab : Nat → Option Slab
  mem : Nat → Option Nat
  pool : List Nat
  live : Nat → Option Nat

def objsPerSlabFor (objSize : Nat) : Nat := (4096 - slabHeaderSize) / objSize

/-- At least a pointer, rounded up to the alignment. -/
def roundSize (size : Nat) : Nat := ((if size < 8 then 8 else size) + 7) / 8 * 8

variable (s : Heap)

def kmemCacheInit (c size : Nat) : Heap :=
  let cache : KmemCache := ⟨size, roundSize size, objsPerSlabFor (roundSize size), [], 0, 0⟩
  { s with caches := update s.caches c (some cache) }

def slabOf (p : Nat) : Nat := p / 4096

def objAt (g objSize i : Nat) : Nat := g * 4096 + slabHeaderSize + i * objSize

/-- The loop of grow_cache, from the object below the given number down to the first. -/
def threadObjs (g objSize : Nat) : Nat → (Nat → Option Nat) → Option Nat → (Nat → Option Nat) × Option Nat
  | 0, mem, head => (mem, head)
  | i + 1, mem, head =>
    threadObjs g objSize i (update mem (objAt g objSize i) head) (some (objAt g objSize i))

/-- pmm_alloc zeroes the page it takes from the pool. -/
def zeroPage (mem : Nat → Option Nat) (g : Nat) : Nat → Option Nat := fun a => if slabOf a = g then none else mem a

def growCache (c : Nat) (cache : KmemCache) : Option (Heap × Nat) :=
  match s.pool with
  | [] => none
  | g :: rest =>
    let built := threadObjs g cache.objSize cache.objsPerSlab (zeroPage s.mem g) none
    some ({ s with
      pool := rest
      mem := built.1
      slab := update s.slab g (some ⟨cache.objsPerSlab, c, built.2⟩)
      caches := update s.caches c (some { cache with
        slabs := g :: cache.slabs
        totalObjs := cache.totalObjs + cache.objsPerSlab
        freeObjs := cache.freeObjs + cache.objsPerSlab }) }, g)

def Heap.roomIn (g : Nat) : Bool := (s.slab g).any (0 < ·.freeCount)

/-- The object kmem_cache_alloc takes from a slab; none where a null pointer would be followed. -/
def takeObj (c g request : Nat) : Option (Heap × Option Nat) := do
  let h ← s.slab g
  let p ← h.freelist
  let cache ← s.caches c
  some ({ s with
    slab := update s.slab g (some { h with freelist := s.mem p, freeCount := h.freeCount - 1 })
    caches := update s.caches c (some { cache with freeObjs := cache.freeObjs - 1 })
    live := update s.live p (some request) }, some p)

def kmemCacheAlloc (c request : Nat) : Option (Heap × Option Nat) := do
  let cache ← s.caches c
  match cache.slabs.find? s.roomIn with
  | some g => takeObj s c g request
  | none =>
    match growCache s c cache with
    | none => some (s, none)
    | some (s, g) => takeObj s c g request

def slabFree (g : Nat) (h : Slab) (p : Nat) : Heap :=
  { s with
    mem := update s.mem p h.freelist
    slab := update s.slab g (some { h with freelist := some p, freeCount := h.freeCount + 1 })
    caches := update s.caches h.cache
      ((s.caches h.cache).map fun cache => { cache with freeObjs := cache.freeObjs + 1 })
    live := update s.live p none }

def kmemCacheFree (c p : Nat) : Heap :=
  match s.slab (slabOf p) with
  | none => s
  | some h => if h.cache ≠ c then s else slabFree s (slabOf p) h p

def kfree (p : Nat) : Heap :=
  match s.slab (slabOf p) with
  | none => s
  | some h => slabFree s (slabOf p) h p

/-- The sizes of size_caches; a cache of kmalloc is named by its place. -/
def sizeCaches : List Nat := [16, 32, 64, 128, 256, 512, 1024, 2048]

def kmalloc (size : Nat) : Option (Heap × Option Nat) :=
  if size = 0 then some (s, none)
  else
    match sizeCaches.findIdx? (size ≤ ·) with
    | none => some (s, none)
    | some i => kmemCacheAlloc s i size

/-- The calls, what a client does to its objects, and what others do to the page pool. -/
inductive Op where
  | init (c size : Nat)
  | cacheAlloc (c : Nat)
  | cacheFree (c p : Nat)
  | kmalloc (size : Nat)
  | kfree (p : Nat)
  | store (p k : Nat) (value : Option Nat)
  | takePage
  | givePage (g : Nat)
  deriving DecidableEq

def call : Op → Option (Heap × Option Nat)
  | .init c size => some (kmemCacheInit s c size, none)
  | .cacheAlloc c => kmemCacheAlloc s c (((s.caches c).map (·.asked)).getD 0)
  | .cacheFree c p => some (kmemCacheFree s c p, none)
  | .kmalloc size => kmalloc s size
  | .kfree p => some (kfree s p, none)
  | .store p k value => some ({ s with mem := update s.mem (p + 8 * k) value }, none)
  | .takePage => some ({ s with pool := s.pool.tail }, none)
  | .givePage g => some ({ s with pool := g :: s.pool }, none)

def step (op : Op) : Option Heap := (call s op).map (·.1)

def Heap.objSizeAt (p : Nat) : Nat :=
  (((s.slab (slabOf p)).bind fun h => s.caches h.cache).map (·.objSize)).getD 0

/-- What clients keep to: objects fit a slab, a cache is initialised before it is used, only live
objects are freed, stores stay in a live object, and a page given back is a page of nobody else. -/
def fair : Op → Prop
  | .init _ size => size ≤ 4064
  | .cacheAlloc c => (s.caches c).isSome = true
  | .cacheFree _ p => (s.live p).isSome = true
  | .kfree p => (s.live p).isSome = true
  | .store p k _ => (s.live p).isSome = true ∧ 8 * k + 8 ≤ s.objSizeAt p
  | .givePage g => g ≠ 0 ∧ g ∉ s.pool ∧ (s.slab g).isNone = true
  | .kmalloc _ => True
  | .takePage => True

instance (s : Heap) (op : Op) : Decidable (fair s op) :=
  match op with
  | .init _ _ => inferInstanceAs (Decidable (_ ≤ _))
  | .cacheAlloc _ | .cacheFree _ _ | .kfree _ => inferInstanceAs (Decidable (_ = _))
  | .store _ _ _ => inferInstanceAs (Decidable (_ ∧ _))
  | .givePage _ => inferInstanceAs (Decidable (_ ∧ _))
  | .kmalloc _ | .takePage => inferInstanceAs (Decidable True)

/-- No cache that has slabs is initialised again, and none of kmalloc for smaller objects. -/
def onUnused : Op → Prop
  | .init c size => (∀ cache ∈ s.caches c, cache.slabs = []) ∧ ∀ n ∈ sizeCaches[c]?, n ≤ size
  | _ => True

instance (s : Heap) (op : Op) : Decidable (onUnused s op) :=
  match op with
  | .init _ _ => inferInstanceAs (Decidable (_ ∧ _))
  | .cacheAlloc _ | .cacheFree _ _ | .kfree _ | .store _ _ _ | .givePage _ | .kmalloc _ | .takePage =>
    inferInstanceAs (Decidable True)

def kmemInit : Heap := sizeCaches.zipIdx.foldl (fun s entry => kmemCacheInit s entry.2 entry.1) s

def boot (pool : List Nat) : Heap := ⟨fun _ => none, fun _ => none, fun _ => none, pool, fun _ => none⟩

/-- After kmem_init, with pages in the pool. -/
def Booted : Prop := ∃ pool : List Nat, pool.Nodup ∧ 0 ∉ pool ∧ s = kmemInit (boot pool)

end Kappara.Kmem
