import Kappara.Sched.Threads

/-! The place of every thread.

A thread is unused, on one of the lists, on a processor, kept back for its processor's
queue, in the hands of a processor that has just taken it off a queue, or, as the idle
thread of a processor, parked. A thread that is going to sleep or exiting is on its list
and on its processor at the same time. The lists, the processors and the states of the
threads agree with one function from threads to places; every step moves one thread, or
the chain of a wait queue, from its place to another. -/

set_option autoImplicit false

namespace Kappara.Sched

variable {n N : Nat}

inductive Place (n N : Nat) where
  | unused
  | list (q : Queue n N)
  | running (c : Fin n)
  | leaving (c : Fin n) (q : Queue n N)
  | pending (c : Fin n)
  | taken (c : Fin n)
  | parked (c : Fin n)
  deriving DecidableEq

namespace Place

def queue : Place n N → Option (Queue n N)
  | .list q | .leaving _ q => some q
  | _ => none

def cpu : Place n N → Option (Fin n)
  | .running c | .leaving c _ => some c
  | _ => none

def owner : Place n N → Option (Fin n)
  | .running c | .leaving c _ | .pending c | .taken c | .parked c => some c
  | .unused | .list _ => none

end Place

def Queue.Fits (k : Kthread N) : Queue n N → Prop
  | .disp _ _ | .hand _ => k.state = .ready
  | .wait wq => k.state = .blocked ∧ k.waitingOn = some wq
  | .reap | .drain _ => k.state = .dead

/-- The lock a thread on its way to the list carries. -/
def Queue.lock : Queue n N → Option (Lock N)
  | .wait wq => some (.sq wq)
  | .reap => some .reap
  | _ => none

def Place.Fits : Option (Kthread N) → Place n N → Prop
  | none, p => p = .unused
  | some _, .unused => False
  | some k, .list q | some k, .leaving _ q => q.Fits k
  | some k, .running _ | some k, .parked _ => k.state = .running
  | some k, .pending _ | some k, .taken _ => k.state = .ready

abbrev Places (n N : Nat) := Fin N → Place n N

abbrev Lists (n N : Nat) := Queue n N → List (Fin N)

structure Listed (s : Sys n N) (lists : Lists n N) : Prop where
  chained : Links.Chained s.head s.next lists
  tail : ∀ c pri, s.tail c pri = (lists (.disp c pri)).getLast?
  active : ∀ c pri, s.qactmap c pri = !(lists (.disp c pri)).isEmpty

def Phase.taken : Phase N → Option (Fin N)
  | .found next _ => some next
  | _ => none

/-- The outgoing thread sleeps or exits and has not been replaced yet. -/
def Phase.leaves : Phase N → Bool
  | .leaving | .empty false | .found _ false => true
  | _ => false

def Cpu.live (k : Cpu N) : Fin N :=
  match k.phase with
  | .switching prev => prev
  | _ => k.thread

section

variable (places : Places n N) (k : Cpu N) (c : Fin n)

/-- The outgoing thread before the switch: it runs on, or is on a list whose lock it carries. -/
def Outgoing : Bool → Prop
  | true => places k.thread = .running c ∧ k.release = none
  | false => ∃ q, places k.thread = .leaving c q ∧ q.lock = k.release ∧ k.release.isSome = true

/-- The outgoing thread until its context is saved. -/
inductive Left (prev : Fin N) : Prop where
  | pending : places prev = .pending c → Left prev
  | parked : places prev = .parked c → Left prev
  | list {q : Queue n N} : places prev = .list q → q.lock = k.release → k.release.isSome = true → Left prev

def Chosen (next : Fin N) : Prop := places next = .taken c ∨ next = k.idle ∧ places next = .parked c

def Settled : Prop :=
  match k.phase with
  | .run => Outgoing places k c true ∧ k.pendingRequeue = none
  | .leaving => Outgoing places k c false ∧ k.pendingRequeue = none
  | .empty requeue => Outgoing places k c requeue ∧ k.pendingRequeue = none
  | .found next requeue => Outgoing places k c requeue ∧ k.pendingRequeue = none ∧ Chosen places k c next
  | .switching prev => places k.thread = .running c ∧ prev ≠ k.thread ∧ Left places k c prev
  | .saved => places k.thread = .running c
  | .drained => places k.thread = .running c ∧ k.pendingRequeue = none
  | .stuck => False

structure CpuOk (held : Lock N → Bool) (context : Fin N → Option (Fin n)) : Prop where
  thread : ∀ t, (places t).cpu = some c ↔ k.thread = t
  pending : ∀ t, places t = .pending c ↔ k.pendingRequeue = some t
  taken : ∀ t, places t = .taken c → k.phase.taken = some t
  idle : places k.idle = .running c ∨ places k.idle = .parked c
  parked : ∀ t, places t = .parked c → t = k.idle
  settled : Settled places k c
  lock : ∀ l, k.release = some l → held l = true
  context : ∀ t, context t = some c ↔ k.live = t

end

structure Agrees (s : Sys n N) (places : Places n N) (lists : Lists n N) : Prop where
  listed : Listed s lists
  member : ∀ q t, t ∈ lists q ↔ (places t).queue = some q
  fits : ∀ t, (places t).Fits (s.threads t)
  cpu : ∀ c, CpuOk places (s.cpu c) c s.held s.context
  lock : ∀ c c' l, (s.cpu c).release = some l → (s.cpu c').release = some l → c = c'

section Frame

variable {places places' : Places n N} {k : Cpu N} {c : Fin n} {held held' : Lock N → Bool}
  {context context' : Fin N → Option (Fin n)} {t : Fin N} {q : Queue n N}

theorem Place.owner_of_cpu {p : Place n N} (on : p.cpu = some c) : p.owner = some c := by
  cases p with
  | running c' | leaving c' q => exact on
  | unused | list | pending | taken | parked => cases on

theorem Settled.thread (settled : Settled places k c) : (places k.thread).cpu = some c := by
  rw [Settled] at settled
  have outgoing (requeue : Bool) (out : Outgoing places k c requeue) : (places k.thread).cpu = some c := by
    cases requeue with
    | true => rw [out.1, Place.cpu]
    | false =>
      obtain ⟨q, leaves, _⟩ := out
      rw [leaves, Place.cpu]
  split at settled
  · exact outgoing _ settled.1
  · exact outgoing _ settled.1
  · exact outgoing _ settled.1
  · exact outgoing _ settled.1
  · rw [settled.1, Place.cpu]
  · rw [settled, Place.cpu]
  · rw [settled.1, Place.cpu]
  · exact settled.elim

theorem Outgoing.leaving {requeue : Bool} (out : Outgoing places k c requeue) (place : places k.thread = .leaving c q) :
    requeue = false ∧ q.lock = k.release ∧ k.release.isSome = true := by
  cases requeue with
  | true => cases place.symm.trans out.1
  | false =>
    obtain ⟨q', leaves, lock⟩ := out
    cases place.symm.trans leaves
    exact ⟨rfl, lock⟩

/-- A thread on its way to a list carries the list's lock. -/
theorem Settled.leaving (settled : Settled places k c) (place : places k.thread = .leaving c q) :
    k.phase.leaves = true ∧ q.lock = k.release ∧ k.release.isSome = true := by
  rw [Settled] at settled
  split at settled
  · cases (settled.1.leaving place).1
  next phase => exact ⟨by rw [phase]; rfl, (settled.1.leaving place).2⟩
  next phase =>
    obtain ⟨rfl, lock⟩ := settled.1.leaving place
    exact ⟨by rw [phase]; rfl, lock⟩
  next phase =>
    obtain ⟨rfl, lock⟩ := settled.1.leaving place
    exact ⟨by rw [phase]; rfl, lock⟩
  · cases place.symm.trans settled.1
  · cases place.symm.trans settled
  · cases place.symm.trans settled.1
  · exact settled.elim

theorem Left.congr {k' : Cpu N} (left : Left places k c t) (same : places' t = places t)
    (release : k'.release = k.release) : Left places' k' c t := by
  cases left with
  | pending here => exact .pending (same.trans here)
  | parked here => exact .parked (same.trans here)
  | list here lock some => exact .list (same.trans here) (lock.trans release.symm) (release ▸ some)

theorem CpuOk.switching (ok : CpuOk places k c held context) (phase : k.phase = .switching t) :
    places k.thread = .running c ∧ t ≠ k.thread ∧ Left places k c t := by
  have settled := ok.settled
  rwa [Settled, phase] at settled

/-- What a processor says stays true when the threads it owns, and the one it is switching from, stay. -/
theorem CpuOk.frame (ok : CpuOk places k c held context)
    (own : ∀ t, (places t).owner = some c ∨ (places' t).owner = some c → places' t = places t)
    (prev : ∀ t, k.phase = .switching t → places' t = places t) (locks : ∀ l, k.release = some l → held' l = true)
    (saved : ∀ t, context' t = some c ↔ context t = some c) : CpuOk places' k c held' context' := by
  have onCpu (t : Fin N) : (places' t).cpu = some c ↔ (places t).cpu = some c := by
    constructor
    · intro on
      rwa [← own t (.inr (Place.owner_of_cpu on))]
    · intro on
      rwa [own t (.inl (Place.owner_of_cpu on))]
  have owned (t : Fin N) {p : Place n N} (mine : p.owner = some c) : places' t = p ↔ places t = p := by
    constructor
    · rintro rfl
      exact (own t (.inr mine)).symm
    · rintro rfl
      exact own t (.inl mine)
  have same : places' k.thread = places k.thread := own _ (.inl (Place.owner_of_cpu ok.settled.thread))
  have outgoing (requeue : Bool) (out : Outgoing places k c requeue) : Outgoing places' k c requeue := by
    cases requeue with
    | true => exact ⟨same.trans out.1, out.2⟩
    | false =>
      obtain ⟨q, leaves, rest⟩ := out
      exact ⟨q, same.trans leaves, rest⟩
  constructor
  · intro t
    rw [onCpu, ok.thread]
  · intro t
    rw [owned t rfl, ok.pending]
  · intro t here
    exact ok.taken t ((owned t rfl).mp here)
  · rw [owned k.idle rfl, owned k.idle rfl]
    exact ok.idle
  · intro t here
    exact ok.parked t ((owned t rfl).mp here)
  · have settled := ok.settled
    rw [Settled] at settled ⊢
    split
    next phase =>
      rw [phase] at settled
      exact ⟨outgoing _ settled.1, settled.2⟩
    next phase =>
      rw [phase] at settled
      exact ⟨outgoing _ settled.1, settled.2⟩
    next phase =>
      rw [phase] at settled
      exact ⟨outgoing _ settled.1, settled.2⟩
    next phase =>
      rw [phase] at settled
      refine ⟨outgoing _ settled.1, settled.2.1, ?_⟩
      rw [Chosen, owned _ rfl, owned _ rfl]
      exact settled.2.2
    next left phase =>
      rw [phase] at settled
      exact ⟨same.trans settled.1, settled.2.1, settled.2.2.congr (prev left phase) rfl⟩
    next phase =>
      rw [phase] at settled
      exact same.trans settled
    next phase =>
      rw [phase] at settled
      exact ⟨same.trans settled.1, settled.2⟩
    next phase => rwa [phase] at settled
  · exact locks
  · intro t
    rw [saved, ok.context]

end Frame

end Kappara.Sched
