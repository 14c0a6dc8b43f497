import Mathlib.Logic.Function.Basic
import Kappara.Lib.Basic

/-! Creation of a pipe (pipe_end and sys_pipe_impl of uts/os/io/stream_head.c,
fd_alloc of uts/os/fs/vfs.c, sys_pipe of uts/os/proc/syscall.c).

What kmalloc answers at each of its eight calls, and whether the two numbers can
be copied to the user, are inputs. Of a stream head and its queues the fields that
name other objects are kept. -/

set_option autoImplicit false

namespace Kappara.Creation

open Function (update)

structure Queue where
  next : Option Nat
  link : Nat
  ptr : Nat

structure Stdata where
  rq : Nat
  wq : Nat
  peer : Option Nat

structure File where
  stream : Nat
  refs : Nat

/-- The caller's descriptors, the list that starts at all_open_streams, and the objects by address. -/
structure Kernel where
  fdt : Fin 16 → Option Nat
  streams : List Nat
  stdatas : Nat → Option Stdata
  queues : Nat → Option Queue
  files : Nat → Option File

structure EndGrant where
  sd : Option Nat
  rq : Option Nat
  wq : Option Nat

def EndGrant.complete (m : EndGrant) : Bool := m.sd.isSome && m.rq.isSome && m.wq.isSome

structure Grant where
  a : EndGrant
  b : EndGrant
  fa : Option Nat
  fb : Option Nat

def queueInitPair (queues : Nat → Option Queue) (rq wq sd : Nat) : Nat → Option Queue :=
  update (update queues rq (some ⟨none, wq, sd⟩)) wq (some ⟨none, rq, sd⟩)

section

variable (k : Kernel) (m : Grant)

def pipeEnd (m : EndGrant) : Option Nat × Kernel :=
  match m.sd, m.rq, m.wq with
  | some sd, some rq, some wq =>
    (some sd, { k with
      queues := queueInitPair k.queues rq wq sd
      stdatas := update k.stdatas sd (some ⟨rq, wq, none⟩)
      streams := sd :: k.streams })
  | _, _, _ => (none, k)

/-- One direction of the pipe: what is written at the end from arrives at the end to. -/
def wire (from_ to_ : Nat) : Kernel :=
  match k.stdatas from_, k.stdatas to_ with
  | some f, some t =>
    { k with
      queues := update k.queues f.wq ((k.queues f.wq).map fun q => { q with next := some t.rq })
      stdatas := update k.stdatas from_ (some { f with peer := some to_ }) }
  | _, _ => k

def fdAlloc (f : Nat) : Option (Fin 16) × Kernel :=
  match (List.finRange 16).find? fun i => (k.fdt i).isNone with
  | some i => (some i, { k with fdt := update k.fdt i (some f) })
  | none => (none, k)

/-- The part of sys_pipe_impl behind the two files. -/
def installFiles (fa fb : Nat) : Option (Fin 16 × Fin 16) × Kernel :=
  let rd := fdAlloc k fa
  let wr := fdAlloc rd.2 fb
  match rd.1, wr.1 with
  | some i, some j => (some (i, j), wr.2)
  | _, _ => (none, wr.2)

/-- The two descriptors, or none where the call returns -1. -/
def sysPipeImpl : Option (Fin 16 × Fin 16) × Kernel :=
  let a := pipeEnd k m.a
  let b := pipeEnd a.2 m.b
  match a.1, b.1 with
  | some a, some b' =>
    let k := wire (wire b.2 a b') b' a
    match m.fa, m.fb with
    | some fa, some fb =>
      installFiles { k with files := update (update k.files fa (some ⟨a, 1⟩)) fb (some ⟨b', 1⟩) } fa fb
    | _, _ => (none, k)
  | _, _ => (none, b.2)

/-- The system call; copied says whether copy_to_user succeeds, or that the caller is the kernel. -/
def sysPipe (copied : Bool) : Option (Fin 16 × Fin 16) × Kernel :=
  let made := sysPipeImpl k m
  (if copied then made.1 else none, made.2)

def NoTrace (k k' : Kernel) : Prop := k'.fdt = k.fdt ∧ k'.streams = k.streams

theorem wire_streams (a b : Nat) : (wire k a b).streams = k.streams := by
  unfold wire; split <;> rfl

theorem fdAlloc_streams (f : Nat) : (fdAlloc k f).2.streams = k.streams := by
  unfold fdAlloc; split <;> rfl

theorem installFiles_streams (fa fb : Nat) : (installFiles k fa fb).2.streams = k.streams := by
  have both := (fdAlloc_streams (fdAlloc k fa).2 fb).trans (fdAlloc_streams k fa)
  rw [installFiles]; split <;> exact both

/-- An end that could not be allocated changes nothing; the other kind is on the list for good. -/
theorem pipeEnd_streams (m : EndGrant) :
    (pipeEnd k m).2.streams.length = k.streams.length + m.complete.toNat := by
  obtain ⟨sd, rq, wq⟩ := m
  cases sd <;> cases rq <;> cases wq <;> rfl

theorem pipeEnd_refused {k : Kernel} {m : EndGrant} (refused : m.complete = false) : pipeEnd k m = (none, k) := by
  obtain ⟨sd, rq, wq⟩ := m
  cases sd <;> cases rq <;> cases wq <;> first | rfl | cases refused

/-- Nothing behind the two calls of pipe_end touches the list again. -/
theorem sysPipeImpl_streams :
    (sysPipeImpl k m).2.streams = (pipeEnd (pipeEnd k m.a).2 m.b).2.streams := by
  rw [sysPipeImpl]
  split
  · split
    · rw [installFiles_streams, wire_streams, wire_streams]
    · rw [wire_streams, wire_streams]
  · rfl

theorem sysPipeImpl_noTrace_iff :
    NoTrace k (sysPipeImpl k m).2 ↔ m.a.complete = false ∧ m.b.complete = false := by
  constructor
  · rintro ⟨_, kept⟩
    have grown := congrArg List.length kept
    rw [sysPipeImpl_streams, pipeEnd_streams, pipeEnd_streams] at grown
    rw [← Bool.toNat_eq_zero, ← Bool.toNat_eq_zero]
    omega
  · rintro ⟨first, second⟩
    rw [sysPipeImpl, pipeEnd_refused first, pipeEnd_refused second]
    exact ⟨rfl, rfl⟩

end

/-- A pipe, and so one that fails, leaves no trace exactly where neither end was allocated. -/
theorem failed_pipe_no_trace_iff (k : Kernel) (m : Grant) (copied : Bool) :
    (NoTrace k (sysPipeImpl k m).2 ↔ m.a.complete = false ∧ m.b.complete = false) ∧
    (NoTrace k (sysPipe k m copied).2 ↔ m.a.complete = false ∧ m.b.complete = false) :=
  ⟨sysPipeImpl_noTrace_iff k m, sysPipeImpl_noTrace_iff k m⟩

def oneFree : Kernel where
  fdt i := if i.val = 15 then none else some i.val
  streams := []
  stdatas _ := none
  queues _ := none
  files _ := none

def plenty : Grant := ⟨⟨some 100, some 101, some 102⟩, ⟨some 103, some 104, some 105⟩, some 106, some 107⟩

/-- The call fails, and its last descriptor and both heads stay behind. -/
theorem pipe_keeps_last_descriptor :
    (sysPipe oneFree plenty true).1 = none ∧ oneFree.fdt 15 = none ∧
      (sysPipe oneFree plenty true).2.fdt 15 = some 106 ∧ (sysPipe oneFree plenty true).2.streams = [103, 100] := by
  decide +kernel

end Kappara.Creation
