import Kappara.Vm.Map
import Kappara.Lib.Run

/-! The calls that build and change address spaces, as programs of page operations.

A call is laid out from its arguments and the caller's map when it begins. It then
runs one operation at a time; each operation that allocates may be refused. The
bytes the loaders copy are followed as ranges of the images they come from. -/

set_option autoImplicit false

namespace Kappara.Vm

variable {n : Nat}

-- The buffer a loader reads from; args stands for the argument block execve builds itself.
inductive Source where
  | file
  | ld
  | libc
  | args
  deriving DecidableEq

inductive Prog (n : Nat) where
  | done (ret : Option Va)
  | create (m : Fin n) (ok fail : Prog n)
  | map (m : Fin n) (va : Va) (ok fail : Prog n)
  | clone (parent child : Fin n) (va : Va) (ok fail : Prog n)
  | unmap (m : Fin n) (va : Va) (rest : Prog n)
  | read (src : Source) (off : Va) (len : Nat) (rest : Prog n)
  | copyin (m : Fin n) (va : Va) (src : Source) (off : Va) (len : Nat) (ok fail : Prog n)
  | set (m : Fin n) (fields : Fields) (rest : Prog n)
  | destroy (m : Fin n) (rest : Prog n)

section Loops

-- vmap_alloc_pages
def allocPages (m : Fin n) (ok fail : Prog n) : Va → Nat → Prog n
  | _, 0 => ok
  | va, count + 1 => .map m va (allocPages m ok fail (va + 4096) count) fail

-- fork_clone_pages
def clonePages (parent child : Fin n) (ok fail : Prog n) : Va → Nat → Prog n
  | _, 0 => ok
  | va, count + 1 => .clone parent child va (clonePages parent child ok fail (va + 4096) count) fail

def unmapPages (m : Fin n) (rest : Prog n) : Va → Nat → Prog n
  | _, 0 => rest
  | va, count + 1 => .unmap m va (unmapPages m rest (va + 4096) count)

end Loops

section Loaders

-- The loops over program headers differ in the image, in what is added to p_vaddr and in the window.
structure Loader (n : Nat) where
  m : Fin n
  src : Source
  img : Image
  base : Va
  lo : Va
  hi : Va

def segPages (va memsz : Va) : Nat := pageCount (alignUp (va + memsz) - alignDown va)

def segment (l : Loader n) (i : Nat) (next fail : Prog n) : Prog n :=
  let ph := l.img.phdr i
  .read l.src (l.img.phdrOff i) (if ph.load then 48 else 4) <|
    if ph.load then
      let va := ph.vaddr + l.base
      if va < l.lo ∨ l.hi < va + ph.memsz then fail
      else
        let copy := if ph.filesz = 0 then next else .copyin l.m va l.src ph.offset ph.filesz.toNat next fail
        allocPages l.m copy fail (alignDown va) (segPages va ph.memsz)
    else next

def segments (l : Loader n) (ok fail : Prog n) : Nat → Nat → Prog n
  | _, 0 => ok
  | i, left + 1 => segment l i (segments l ok fail (i + 1) left) fail

def load (l : Loader n) (ok fail : Prog n) : Prog n := segments l ok fail 0 l.img.ehdr.phnum

end Loaders

section Execve

-- What kthread_create_no_dispatch (with its argument) and process_alloc give. The page of the kernel stack is not
-- counted here, neither as taken nor, where process_alloc fails in execve, as lost.
structure Spawn where
  thread : Option Va
  process : Bool

-- file is what read_file_kernel left in the buffer; args are the lengths of the argument
-- strings with their zero.
structure Exec where
  file : Option Image
  ld : Image
  libc : Image
  args : List Nat
  spawned : Spawn

def pushStrings (m : Fin n) (fail : Prog n) (ok : Va → Prog n) : Va → List Nat → Prog n
  | sp, [] => ok sp
  | sp, len :: rest =>
    let sp := (sp - BitVec.ofNat 64 len) &&& ~~~7#64
    .copyin m sp .args 0 len (pushStrings m fail ok sp rest) fail

-- The results of these copies are not looked at.
def pushWords (m : Fin n) (rest : Prog n) : Va → List Nat → Prog n
  | _, [] => rest
  | sp, len :: more =>
    let sp := sp - BitVec.ofNat 64 len
    let next := pushWords m rest sp more
    .copyin m sp .args 0 len next next

-- Padding, four auxv pairs, the ends of envp and argv, argv and argc.
def stackWords (argc : Nat) : List Nat :=
  (if argc % 2 = 0 then [8] else []) ++ [16, 16, 16, 16, 8, 8] ++ List.replicate argc 8 ++ [8]

def execArgs (m : Fin n) (args : List Nat) (ok fail : Prog n) : Prog n :=
  let args := args.take 32
  pushStrings m fail (fun sp => pushWords m ok (sp &&& ~~~15#64) (stackWords args.length)) execStackTop args.reverse

-- load_static_elf for ld.so and the loop for libc.so.
def execInterp (m : Fin n) (exec : Exec) (ok fail : Prog n) : Prog n :=
  if exec.ld.size < 64 ∨ !exec.ld.isElf ∨ exec.ld.ehdr.type ≠ etExec then fail
  else
    load { m, src := .ld, img := exec.ld, base := 0, lo := ldVa, hi := ldVa + ldSize }
      (if exec.ld.ehdr.entry = 0 ∨ exec.libc.ehdr.type ≠ etDyn ∨ exec.libc.ehdr.machine ≠ 0xb7 then fail
        else load { m, src := .libc, img := exec.libc, base := libcVa, lo := libcVa, hi := libcVa + libcSize } ok fail)
      fail

def execSpawn (spawned : Spawn) (fail : Prog n) : Prog n :=
  match spawned.thread with
  | none => fail
  | some tid => if spawned.process then .done (some tid) else fail

theorem execSpawn_cases (spawned : Spawn) (fail : Prog n) :
    execSpawn spawned fail = fail ∨ ∃ tid, execSpawn spawned fail = .done (some tid) := by
  rcases spawned with ⟨_ | tid, _ | _⟩
  exacts [.inl rfl, .inl rfl, .inl rfl, .inr ⟨tid, rfl⟩]

def execve (m : Fin n) (exec : Exec) : Prog n :=
  match exec.file with
  | none => .done none
  | some file =>
    let eh := file.ehdr
    if file.size < 64 ∨ !file.isElf ∨ (eh.type ≠ etExec ∧ eh.type ≠ etDyn) ∨ eh.phoff = 0 ∨ eh.phnum = 0 then .done none
    else
      let fail : Prog n := .destroy m (.done none)
      let base := if eh.type = etDyn then execVa else 0
      let run := execArgs m exec.args (execSpawn exec.spawned fail) fail
      let stack := allocPages m (.set m { noFields with heapBrk := execHeapVa } run) fail execStackVa
        (pageCount execStackSize)
      .create m
        (load { m, src := .file, img := file, base, lo := execVa, hi := execVa + execSize }
          (if eh.type = etDyn then execInterp m exec stack fail else stack) fail)
        (.done none)

end Execve

section Others

-- Here the process comes first.
def forkSpawn (spawned : Spawn) (fail : Prog n) : Prog n :=
  if spawned.process then
    match spawned.thread with
    | none => fail
    | some tid => .done (some tid)
  else fail

theorem forkSpawn_cases (spawned : Spawn) (fail : Prog n) :
    forkSpawn spawned fail = fail ∨ ∃ tid, forkSpawn spawned fail = .done (some tid) := by
  rcases spawned with ⟨_ | tid, _ | _⟩
  exacts [.inl rfl, .inl rfl, .inl rfl, .inr ⟨tid, rfl⟩]

def fork (parent child : Fin n) (vm : VmMap) (pc : Va) (spawned : Spawn) : Prog n :=
  if vm.fields.heapBrk = 0 then .done none
  else if ¬(execVa ≤ pc ∧ pc < execVa + execSize) ∧ ¬(libcVa ≤ pc ∧ pc < libcVa + libcSize) then .done none
  else
    let fail : Prog n := .destroy child (.done none)
    let range (start size : Va) (ok : Prog n) : Prog n :=
      clonePages parent child ok fail start (rounds start (start + size))
    .create child
      (range execVa execSize <| range execStackVa execStackSize <| range execHeapVa execHeapSize <|
        range ldVa ldSize <| range libcVa libcSize <| range dlopenVa dlopenSize <| range anonVa anonSize <|
        .set child vm.fields (forkSpawn spawned fail))
      (.done none)

-- What stands behind a mapping: nothing, or a file that can be opened for it or cannot. A call
-- whose flags or descriptor are not usable is refused.
inductive Backing where
  | anonymous
  | file (opens : Bool)
  | refused
  deriving DecidableEq

variable (m : Fin n) (vm : VmMap)

def mmapBase : Va := if vm.fields.anonNext = 0 then anonVa else vm.fields.anonNext

def mmap (length : Va) (backing : Backing) : Prog n :=
  if length = 0 ∨ backing = .refused then .done none
  else
    let base := mmapBase vm
    let aligned := alignUp length
    .set m { vm.fields with anonNext := base } <|
      if anonVa + anonSize < base + aligned then .done none
      else
        let ok : Prog n :=
          if backing = .file false then .done none
          else .set m { vm.fields with anonNext := base + aligned } (.done (some base))
        allocPages m ok (.done none) base (pageCount aligned)

def munmap (addr length : Va) : Prog n :=
  if length = 0 ∨ addr < anonVa ∨ anonVa + anonSize < addr + length then .done none
  else unmapPages m (.done (some 0)) addr (rounds addr (addr + alignUp length))

def brk (addr : Va) : Prog n :=
  if vm.fields.heapBrk = 0 then .done none
  else if addr = 0 then .done (some vm.fields.heapBrk)
  else if addr < execHeapVa ∨ execHeapVa + execHeapSize < addr then .done none
  else
    let oldTop := alignUp vm.fields.heapBrk
    let newTop := alignUp addr
    let ok : Prog n := .set m { vm.fields with heapBrk := addr } (.done (some addr))
    if oldTop < newTop then allocPages m ok (.done none) oldTop (pageCount (newTop - oldTop))
    else unmapPages m ok newTop (rounds newTop oldTop)

def dlopenBase (s : Fin 4) : Va := dlopenVa + BitVec.ofNat 64 s * dlopenSlotSize

def dlopen (path : List (BitVec 8)) (file : Option Image) : Prog n :=
  if vm.fields.heapBrk = 0 then .done none
  else
    match (List.finRange 4).find? fun s => (vm.fields.slots s).any fun slot => slot.2 = path with
    | some s => .done ((vm.fields.slots s).map (·.1))
    | none =>
      match (List.finRange 4).find? fun s => (vm.fields.slots s).isNone with
      | none => .done none
      | some s =>
        match file with
        | none => .done none
        | some img =>
          if img.size < 64 ∨ !img.isElf ∨ img.ehdr.type ≠ etDyn then .done none
          else
            let base := dlopenBase s
            let slots := Function.update vm.fields.slots s (some (base, path))
            load { m, src := .file, img, base, lo := base, hi := base + dlopenSlotSize }
              (.set m { vm.fields with slots } (.done (some base))) (.done none)

def dlclose (handle : Va) : Prog n :=
  match (List.finRange 4).find? fun s => (vm.fields.slots s).any fun slot => slot.1 = handle with
  | none => .done none
  | some s =>
    let slots := Function.update vm.fields.slots s none
    unmapPages m (.set m { vm.fields with slots } (.done (some 0))) handle (rounds handle (handle + dlopenSlotSize))

-- The last reference to the map goes with the process.
def exit : Prog n := .destroy m (.done (some 0))

end Others

inductive Call (n : Nat) where
  | execve (m : Fin n) (exec : Exec)
  | fork (parent child : Fin n) (pc : Va) (spawned : Spawn)
  | exit (m : Fin n)
  | brk (m : Fin n) (addr : Va)
  | mmap (m : Fin n) (length : Va) (backing : Backing)
  | munmap (m : Fin n) (addr length : Va)
  | dlopen (m : Fin n) (path : List (BitVec 8)) (file : Option Image)
  | dlclose (m : Fin n) (handle : Va)

-- What a call has done so far, for the bytes it reads and the pages it maps.
inductive Event where
  | read (src : Source) (off : Va) (len : Nat)
  | map (va : Va)
  | copy (src : Source) (off : Va) (len : Nat)

-- The machine between two page operations: the live maps, the free list, and the call in
-- progress with the maps as it found them and what it has done.
structure Sys (n : Nat) where
  maps : Fin n → Option VmMap
  free : List Page
  pending : Prog n
  call : Option (Call n)
  before : Fin n → Option VmMap
  events : List Event

def Prog.idle : Prog n → Bool
  | .done _ => true
  | _ => false

-- None where the caller has no map, or the place for a new one is taken.
def program (s : Sys n) : Call n → Option (Prog n)
  | .execve m exec => if (s.maps m).isNone then some (Vm.execve m exec) else none
  | .fork parent child pc spawned =>
    if (s.maps child).isNone then (s.maps parent).map fun vm => Vm.fork parent child vm pc spawned else none
  | .exit m => (s.maps m).map fun _ => Vm.exit m
  | .brk m addr => (s.maps m).map fun vm => Vm.brk m vm addr
  | .mmap m length backing => (s.maps m).map fun vm => Vm.mmap m vm length backing
  | .munmap m addr length => (s.maps m).map fun _ => Vm.munmap m addr length
  | .dlopen m path file => (s.maps m).map fun vm => Vm.dlopen m vm path file
  | .dlclose m handle => (s.maps m).map fun vm => Vm.dlclose m vm handle

def Sys.put (s : Sys n) (m : Fin n) (vm : Option VmMap) (free : List Page) (pending : Prog n) : Sys n :=
  { s with maps := Function.update s.maps m vm, free, pending }

def Sys.log (s : Sys n) (event : Event) : Sys n := { s with events := s.events ++ [event] }

-- A call begins, or the pending one makes its next operation; the answers are those of the page
-- allocator, in order.
inductive Act (n : Nat) where
  | begin (c : Call n)
  | next (a b c : Bool)

def mapPage (s : Sys n) (m : Fin n) (vm : VmMap) (va : Va) (a b : Bool) (ok fail : Prog n) : Sys n :=
  match mapUser4k vm s.free va a b with
  | (none, free) => { s with free, pending := fail }
  | (some vm', free) => (s.put m (some vm') free ok).log (.map va)

def step (boot : Fin 512 → BitVec 64) (s : Sys n) : Act n → Option (Sys n)
  | .begin c =>
    if s.pending.idle then
      (program s c).map fun prog => { s with pending := prog, call := some c, before := s.maps, events := [] }
    else none
  | .next a b c =>
    match s.pending with
    | .done _ => none
    | .create m ok fail =>
      if (s.maps m).isSome then none
      else
        match vmMapCreate boot s.free a b c with
        | (none, free) => some { s with free, pending := fail }
        | (some vm, free) => some (s.put m (some vm) free ok)
    | .map m va ok fail => (s.maps m).map fun vm => mapPage s m vm va a b ok fail
    | .clone parent child va ok fail =>
      match s.maps parent, s.maps child with
      | some pvm, some cvm =>
        if (pvm.lookup va).isSome then some (mapPage s child cvm va a b ok fail) else some { s with pending := ok }
      | _, _ => none
    | .unmap m va rest =>
      (s.maps m).map fun vm =>
        let (vm', free) := unmapUser4k vm s.free va
        s.put m (some vm') free rest
    | .read src off len rest => some ({ s with pending := rest }.log (.read src off len))
    | .copyin m va src off len ok fail =>
      (s.maps m).map fun vm =>
        if copyinOk vm va len then { s with pending := ok }.log (.copy src off len) else { s with pending := fail }
    | .set m fields rest => (s.maps m).map fun vm => s.put m (some { vm with fields }) s.free rest
    | .destroy m rest => (s.maps m).map fun vm => s.put m none (vmapDestroy vm s.free) rest

-- No process yet, and all pages on the free list.
def Booted (pages : List Page) (s : Sys n) : Prop :=
  (∀ m, s.maps m = none) ∧ s.free = pages ∧ pages.Nodup ∧ s.pending = .done none ∧ s.call = none ∧ s.events = []

end Kappara.Vm
