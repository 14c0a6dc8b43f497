import Kappara.Lib.Links

/-! The block buffer cache (uts/os/io/buf.c and bdevsw.c).

A cache has the n buffers for which buf_init found memory. Links between buffers
are kept beside the buffers and not inside them. Drivers are synchronous: a
strategy call either moves the block or reports an error, and has called biodone
when it returns. The count and residue fields and the error code are left out,
since every request is for one block and nobody reads the code. -/

set_option autoImplicit false

namespace Kappara.Io

open Links
open Function (update)

abbrev Dev := BitVec 32

abbrev Blkno := BitVec 64

abbrev Block := Vector Byte 512

abbrev Key := Dev × Blkno

-- (dev_t)-1, the device of a buffer that has not been used yet.
def noDev : Dev := 0xffffffff#32

def major (dev : Dev) : BitVec 8 := (dev >>> 24).setWidth 8

structure Flags where
  read : Bool
  write : Bool
  done : Bool
  error : Bool
  busy : Bool
  delwri : Bool
  valid : Bool
  deriving DecidableEq

def noFlags : Flags := ⟨false, false, false, false, false, false, false⟩

structure Buf where
  dev : Dev
  blkno : Blkno
  flags : Flags
  data : Block
  deriving DecidableEq

def Buf.key (b : Buf) : Key := (b.dev, b.blkno)

/-- The cache together with the contents of the devices behind it. The hash has 16 buckets. -/
structure Cache (n : Nat) where
  bufs : Fin n → Buf
  lru : Queue (Fin n)
  buckets : BitVec 4 → Option (Fin n)
  hashNext : Fin n → Option (Fin n)
  disk : Key → Block

variable {n : Nat}

variable (drivers : BitVec 8 → Bool) (ok : Bool) (c : Cache n) (i : Fin n) (key : Key)

/-- (dev * 31) ^ blkno, of which the mask keeps the low four bits. -/
def bufHashIdx : BitVec 4 := ((key.1.setWidth 64 * 31#64) ^^^ key.2).setWidth 4

def Cache.mark (f : Flags → Flags) : Cache n :=
  { c with bufs := update c.bufs i { c.bufs i with flags := f (c.bufs i).flags } }

def Cache.fill (data : Block) : Cache n :=
  { c with bufs := update c.bufs i { c.bufs i with data := data } }

def Cache.assign : Cache n :=
  { c with
    bufs := update c.bufs i { c.bufs i with dev := key.1, blkno := key.2, flags := { noFlags with busy := true } } }

def hashInsert : Cache n :=
  let h := bufHashIdx (c.bufs i).key
  { c with hashNext := update c.hashNext i (c.buckets h), buckets := update c.buckets h (some i) }

/-- The loop along the chain passes every buffer at most once, or never ends: none. -/
def hashRemove : Option (Cache n) :=
  let h := bufHashIdx (c.bufs i).key
  match remove c.hashNext (c.buckets h) i (n + 1) with
  | none => none
  | some (next, bucket) => some { c with hashNext := next, buckets := update c.buckets h bucket }

def hashLookup : Option (Option (Fin n)) :=
  search c.hashNext (fun i => (c.bufs i).key == key) (n + 1) (c.buckets (bufHashIdx key))

/-- A slot of memory each, nothing in the chains, all buffers on the LRU list in order. -/
def bufInit (slab : Fin n → Block) (disk : Key → Block) : Cache n where
  bufs i := ⟨noDev, 0#64, noFlags, slab i⟩
  lru := (List.finRange n).foldl Queue.insertTail ⟨none, none, fun _ => none, fun _ => none⟩
  buckets _ := none
  hashNext _ := none
  disk := disk

def bdevLookup (m : BitVec 8) : Bool := m ≠ 0#8 && m < 16#8 && drivers m

def biodone : Cache n := c.mark i fun f => { f with done := true }

/-- d_strategy: the drivers look at B_READ alone for the direction. -/
def dStrategy : Cache n :=
  let b := c.bufs i
  if ok then
    if b.flags.read then biodone (c.fill i (c.disk b.key)) i
    else biodone { c with disk := update c.disk b.key b.data } i
  else biodone (c.mark i fun f => { f with error := true }) i

def strategyAndWait : Cache n × Bool :=
  if bdevLookup drivers (major (c.bufs i).dev) then
    let c := dStrategy ok (c.mark i fun f => { f with done := false, error := false }) i
    (c, !(c.bufs i).flags.error)
  else (c.mark i fun f => { f with error := true, done := true }, false)

def brelse : Cache n :=
  let c := c.mark i fun f => { f with busy := false }
  { c with lru := c.lru.insertTail i }

def bwrite : Cache n × Bool :=
  let (c, success) := strategyAndWait drivers ok (c.mark i fun f => { f with write := true }) i
  let c := c.mark i fun f => { f with write := false }
  if success then (brelse (c.mark i fun f => { f with valid := true, delwri := false }) i, true)
  else (brelse c i, false)

def bdwrite : Cache n := brelse (c.mark i fun f => { f with delwri := true, valid := true }) i

/-- The victim leaves the LRU list and, where it is dirty, is written back. -/
def writeBack : Cache n :=
  if (c.bufs i).flags.delwri then (bwrite drivers ok { c with lru := c.lru.unlink i } i).1
  else { c with lru := c.lru.unlink i }

/-- The victim, or none inside if no buffer is free. -/
def evictOne : Option (Cache n × Option (Fin n)) :=
  match c.lru.head with
  | none => some (c, none)
  | some i =>
    match if (c.bufs i).dev = noDev then some (writeBack drivers ok c i) else hashRemove
      (writeBack drivers ok c i) i with
    | none => none
    | some c => some (c.mark i fun _ => { noFlags with busy := true }, some i)

/-- A buffer for the block, or none inside if none is free. The call does not return where the block is
held by somebody (it sleeps) or a chain has no end. -/
def getblk : Option (Cache n × Option (Fin n)) :=
  match hashLookup c key with
  | none => none
  | some (some i) =>
    if (c.bufs i).flags.busy then none
    else some ({ c with lru := c.lru.unlink i }.mark i fun f => { f with busy := true }, some i)
  | some none =>
    match evictOne drivers ok c with
    | none => none
    | some (c, none) => some (c, none)
    | some (c, some i) => some (hashInsert (c.assign i key) i, some i)

/-- The two outcomes are that of a victim's write-back and that of the read. -/
def bread (wb ok : Bool) (c : Cache n) (key : Key) : Option (Cache n × Option (Fin n)) :=
  match getblk drivers wb c key with
  | none => none
  | some (c, none) => some (c, none)
  | some (c, some i) =>
    if (c.bufs i).flags.valid then some (c, some i)
    else
      let (c, success) := strategyAndWait drivers ok (c.mark i fun f => { f with read := true }) i
      if success then some (c.mark i fun f => { f with valid := true, read := false }, some i)
      else some (brelse c i, none)

end Kappara.Io
