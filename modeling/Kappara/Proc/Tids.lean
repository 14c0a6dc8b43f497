import Kappara.Kernel.Delivery
import Kappara.Lib.Run

/-! Thread ids (kthread_create_internal, kthread_exit, kthread_find and kthread_signal_pgrp of
uts/os/proc/sched.c, the calls that take an id of uts/os/proc/signal.c).

Ids are given out by a counter of 32 bits. A table of 256 entries leads from an id to its
thread, and a table of 64 entries keeps the status a thread exits with, at the id modulo
64. A thread is named by the address of its struct kthread. A step is one section under a
lock: kthread_exit stores the status first and is dead in a later step, and sys_wait_impl
reads the status after it has let go of the lock under which it looked for the thread. -/

set_option autoImplicit false

namespace Kappara.Proc

open Signal (Signo sigbit has sigFatalMask)
open Function (update)

abbrev Tid := BitVec 32

/-- Where a call of sys_wait is: before the lookup, on thread_exit_wq, or before the read of the status. -/
inductive Wait where
  | checking (tid : Tid)
  | asleep (tid : Tid)
  | reading (tid : Tid)
  deriving DecidableEq

-- The status is there once the thread has called kthread_exit.
structure Thread where
  tid : Tid
  dead : Bool
  pgrp : BitVec 32
  pending : BitVec 32
  exitStatus : Option Int
  wait : Option Wait
  deriving DecidableEq

def Thread.wake (k : Thread) : Thread :=
  match k.wait with
  | some (.asleep tid) => { k with wait := some (.checking tid) }
  | _ => k

def Thread.signal (sig : Signo) (k : Thread) : Thread := { k.wake with pending := k.pending ||| sigbit sig }

structure Sys where
  threads : Nat → Option Thread
  nextTid : Tid
  tidTable : Fin 256 → Option Nat
  exitTab : Fin 64 → Tid × Int

def Sys.modify (s : Sys) (a : Nat) (f : Thread → Thread) : Sys :=
  { s with threads := update s.threads a ((s.threads a).map f) }

@[simp] theorem modify_self (s : Sys) (a : Nat) (f : Thread → Thread) :
    (s.modify a f).threads a = (s.threads a).map f := by
  simp [Sys.modify]

theorem modify_other (s : Sys) {a b : Nat} (f : Thread → Thread) (other : b ≠ a) :
    (s.modify a f).threads b = s.threads b := by
  simp [Sys.modify, other]

section Lookup

variable (s : Sys)

def kthreadFind (tid : Tid) : Option Nat :=
  if small : tid.toNat < 256 then
    match s.tidTable ⟨tid.toNat, small⟩ with
    | none => none
    | some a => if (s.threads a).any (!·.dead) then some a else none
  else none

def kthreadSignal (a : Nat) (sig : Signo) : Int × Sys :=
  if sig = 0 then (-1, s) else (0, s.modify a (·.signal sig))

def signalAt (pgrp : BitVec 32) (sig : Signo) (out : Int × Sys) (i : Fin 256) : Int × Sys :=
  match out.2.tidTable i with
  | none => out
  | some a =>
    if (out.2.threads a).any fun k => !k.dead && k.pgrp == pgrp then
      let signalled := kthreadSignal out.2 a sig
      (if signalled.1 = 0 then out.1 + 1 else out.1, signalled.2)
    else out

def kthreadSignalPgrp (pgrp : BitVec 32) (sig : Signo) : Int × Sys :=
  if pgrp = 0 then (0, s) else (List.finRange 256).foldl (signalAt pgrp sig) (0, s)

def sysKillImpl (tid sig : BitVec 32) : Int × Sys :=
  if tid.toInt ≤ 0 ∨ sig.toInt < 0 ∨ 32 ≤ sig.toInt then (-1, s)
  else
    match kthreadFind s tid with
    | none => (-1, s)
    | some a => if sig = 0 then (0, s) else kthreadSignal s a (Fin.ofNat 32 sig.toNat)

def sysSetpgidImpl (caller : Nat) (pid pgid : BitVec 32) : Int × Sys :=
  match if pid = 0 then some caller else kthreadFind s pid with
  | none => (-1, s)
  | some a =>
    if pgid.toInt < 0 then (-1, s)
    else (0, s.modify a fun k => { k with pgrp := if pgid = 0 then k.tid else pgid })

def sysSetsidImpl (caller : Nat) : Sys := s.modify caller fun k => { k with pgrp := k.tid }

end Lookup

section Life

section

variable (s : Sys) (a : Nat) (tid : Tid)

def Sys.record (a : Option Nat) : Fin 256 → Option Nat :=
  if small : tid.toNat < 256 then update s.tidTable ⟨tid.toNat, small⟩ a else s.tidTable

-- The process group comes from the creator.
def kthreadCreate (parent : Option Nat) (a : Nat) : Option Sys :=
  if (s.threads a).isSome then none
  else
    some { s with
      threads := update s.threads a
        (some ⟨s.nextTid, false, ((parent.bind s.threads).map (·.pgrp)).getD 0, 0, none, none⟩)
      nextTid := s.nextTid + 1
      tidTable := s.record s.nextTid (some a) }

def exitIndex : Fin 64 := Fin.ofNat 64 tid.toNat

/-- kthread_exit up to the store of the status. -/
def kthreadExit (status : Int) : Option Sys :=
  match s.threads a with
  | none => none
  | some k =>
    if k.exitStatus.isNone && k.wait.isNone then
      some { s with
        threads := update s.threads a (some { k with exitStatus := some status })
        exitTab := update s.exitTab (exitIndex k.tid) (k.tid, status) }
    else none

/-- The rest of kthread_exit: the thread is dead and all sleepers on thread_exit_wq wake up. -/
def kthreadDead : Option Sys :=
  match s.threads a with
  | none => none
  | some k =>
    if k.exitStatus.isSome && !k.dead then
      some { s with threads := fun b => (update s.threads a (some { k with dead := true }) b).map Thread.wake }
    else none

def reap : Option Sys :=
  match s.threads a with
  | none => none
  | some k =>
    if k.dead then some { s with threads := update s.threads a none, tidTable := s.record k.tid none } else none

def kthreadExitStatus : Int :=
  if (s.exitTab (exitIndex tid)).1 = tid then (s.exitTab (exitIndex tid)).2 else 0

-- An id that is not positive is refused at once.
def sysWaitImpl : Option Sys :=
  match s.threads a with
  | none => none
  | some k =>
    if k.exitStatus.isNone && k.wait.isNone then
      some (if tid.toInt ≤ 0 then s else s.modify a fun k => { k with wait := some (.checking tid) })
    else none

/-- One round of the loop of sys_wait_impl, under the lock of thread_exit_wq. -/
def waitCheck : Option Sys :=
  match s.threads a with
  | none => none
  | some k =>
    match k.wait with
    | some (.checking tid) =>
      some (s.modify a fun k => { k with
        wait :=
          if (kthreadFind s tid).isNone then some (.reading tid)
          else if k.pending &&& sigFatalMask ≠ 0 then none
          else some (.asleep tid) })
    | _ => none

/-- The end of sys_wait_impl: the value it returns and the state after it. -/
def waitRead : Option (Int × Sys) :=
  match s.threads a with
  | none => none
  | some k =>
    match k.wait with
    | some (.reading tid) => some (kthreadExitStatus s tid, s.modify a fun k => { k with wait := none })
    | _ => none

inductive Event where
  | create (parent : Option Nat) (a : Nat)
  | setpgid (caller : Nat) (pid pgid : BitVec 32)
  | setsid (caller : Nat)
  | kill (tid sig : BitVec 32)
  | signalPgrp (pgrp : BitVec 32) (sig : Signo)
  | deliver (a : Nat) (set : BitVec 32)
  | exit (a : Nat) (status : Int)
  | dead (a : Nat)
  | reap (a : Nat)
  | wait (a : Nat) (tid : Tid)
  | check (a : Nat)
  | read (a : Nat)
  deriving DecidableEq

def step : Event → Option Sys
  | .create parent a => kthreadCreate s parent a
  | .setpgid caller pid pgid => some (sysSetpgidImpl s caller pid pgid).2
  | .setsid caller => some (sysSetsidImpl s caller)
  | .kill tid sig => some (sysKillImpl s tid sig).2
  | .signalPgrp pgrp sig => some (kthreadSignalPgrp s pgrp sig).2
  | .deliver a set => some (s.modify a fun k => { k with pending := k.pending &&& ~~~set })
  | .exit a status => kthreadExit s a status
  | .dead a => kthreadDead s a
  | .reap a => Proc.reap s a
  | .wait a tid => sysWaitImpl s a tid
  | .check a => waitCheck s a
  | .read a => (waitRead s a).map (·.2)

end

/-- The main thread has id 0; the secondary processors' idle threads take the first ids. -/
def booted : Sys where
  threads := update (fun _ => none) 0 (some ⟨0, false, 0, 0, none, none⟩)
  nextTid := 1
  tidTable := update (fun _ => none) 0 (some 0)
  exitTab _ := (0, 0)

end Life

end Kappara.Proc
