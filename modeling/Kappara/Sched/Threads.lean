import Kappara.Lib.Links
import Kappara.Lib.Run

/-! Threads and processors (uts/os/proc/sched.c).

Every list of threads goes through the one link field of struct kthread: the dispatch
queues of each processor, the wait queues, the reap list, and the chains a waker or
a reaper holds between unlinking and using them. A step is one section of code under
a lock. A processor inside switch_to_next is in one of the phases of the switch; it holds
its cpu_thread_lock in all of them but the first, with interrupts masked, and where the
outgoing thread sleeps or exits also the wait queue's lock or to_reap_lock.

The choice of a processor to push to or to steal from reads counters without a lock, so
any processor can be chosen. A timer tick is a wake-up of sched_tick_wq, the tick of the
thread's class and, where that or the queue asks for it, a yield. A yield reads curcpu()
before it masks interrupts, so it may act on the structure of a processor its thread has
left. -/

set_option autoImplicit false

namespace Kappara.Sched

open Function (update)

inductive KtState where
  | ready
  | running
  | blocked
  | dead
  deriving DecidableEq

inductive Sclass where
  | sys
  | ts
  deriving DecidableEq

variable {n N : Nat}

inductive WaitQueue (N : Nat) where
  | sigwait (t : Fin N)
  | threadExit
  | schedTick
  | other (k : Nat)
  deriving DecidableEq

structure Kthread (N : Nat) where
  state : KtState
  waitingOn : Option (WaitQueue N)
  pri : Int
  cid : Sclass
  quantumLeft : Int
  deriving DecidableEq

namespace Kthread

variable (k : Kthread N)

def clFork : Kthread N :=
  match k.cid with
  | .sys => { k with pri := 60, quantumLeft := 0 }
  | .ts => { k with pri := 30, quantumLeft := 5 }

def clWakeup : Kthread N :=
  match k.cid with
  | .sys => k
  | .ts => { k with pri := 30, quantumLeft := 5 }

def clTick : Kthread N :=
  match k.cid with
  | .sys => k
  | .ts =>
    let left := if 0 < k.quantumLeft then k.quantumLeft - 1 else k.quantumLeft
    if left = 0 then { k with pri := max (k.pri - 5) 0, quantumLeft := 5 } else { k with quantumLeft := left }

def setclass (cid : Sclass) : Kthread N := clFork { k with cid }

def ready : Kthread N := { k with state := .ready, waitingOn := none }

end Kthread

/-- The lists that go through the link field. A hand is a waker's, a drain a reaper's. -/
inductive Queue (n N : Nat) where
  | disp (c : Fin n) (pri : Fin 64)
  | wait (wq : WaitQueue N)
  | reap
  | hand (w : Nat)
  | drain (r : Nat)
  deriving DecidableEq

/-- The locks a thread may carry into the switch. -/
inductive Lock (N : Nat) where
  | sq (wq : WaitQueue N)
  | reap
  deriving DecidableEq

/-- Where a processor is in switch_to_next. -/
inductive Phase (N : Nat) where
  | run
  | leaving
  | empty (requeue : Bool)
  | found (next : Fin N) (requeue : Bool)
  | switching (prev : Fin N)
  | saved
  | drained
  | stuck
  deriving DecidableEq

-- The lock to release is cpu_pending_release_lock, and extra_release before it is stored there.
structure Cpu (N : Nat) where
  thread : Fin N
  idle : Fin N
  pendingRequeue : Option (Fin N)
  release : Option (Lock N)
  phase : Phase N
  deriving DecidableEq

/-- Thread structures that are not allocated have no entry. The context of a thread is in the registers
of a processor, or saved. -/
structure Sys (n N : Nat) where
  threads : Fin N → Option (Kthread N)
  next : Fin N → Option (Fin N)
  head : Queue n N → Option (Fin N)
  tail : Fin n → Fin 64 → Option (Fin N)
  qactmap : Fin n → Fin 64 → Bool
  cpu : Fin n → Cpu N
  held : Lock N → Bool
  context : Fin N → Option (Fin n)

namespace Sys

variable (s : Sys n N)

def setCpu (c : Fin n) (k : Cpu N) : Sys n N := { s with cpu := update s.cpu c k }

def setPhase (c : Fin n) (phase : Phase N) : Sys n N := s.setCpu c { s.cpu c with phase }

def modify (t : Fin N) (f : Kthread N → Kthread N) : Sys n N :=
  { s with threads := update s.threads t ((s.threads t).map f) }

def setHead (q : Queue n N) (t : Option (Fin N)) : Sys n N := { s with head := update s.head q t }

def setNext (t : Fin N) (next : Option (Fin N)) : Sys n N := { s with next := update s.next t next }

def isFree (w : Queue n N) : Bool := (s.head w).isNone

end Sys

section Queues

def dispqClampPri (pri : Int) : Fin 64 :=
  if pri < 0 then 0 else if 64 ≤ pri then 63 else Fin.ofNat 64 pri.toNat

def update₂ {A B C : Type} [DecidableEq A] [DecidableEq B] (f : A → B → C) (a : A) (b : B) (c : C) : A → B → C :=
  update f a (update (f a) b c)

variable (s : Sys n N) (c : Fin n)

def dispqPushAt (pri : Fin 64) (t : Fin N) : Sys n N :=
  let linked := Links.redirect (update s.next t none) (s.head (.disp c pri)) (s.tail c pri) (some t)
  { s with
    next := linked.1
    head := update s.head (.disp c pri) linked.2
    tail := update₂ s.tail c pri (some t)
    qactmap := update₂ s.qactmap c pri true }

def dispqPushLocked (t : Fin N) : Sys n N :=
  dispqPushAt s c (dispqClampPri ((s.threads t).elim 0 (·.pri))) t

/-- The highest priority whose bit is set. -/
def highest (map : Fin 64 → Bool) : Option (Fin 64) := (List.finRange 64).reverse.find? map

def dispqPopAt (pri : Fin 64) (t : Fin N) : Sys n N :=
  { s with
    next := update s.next t none
    head := update s.head (.disp c pri) (s.next t)
    tail := if (s.next t).isNone then update₂ s.tail c pri none else s.tail
    qactmap := if (s.next t).isNone then update₂ s.qactmap c pri false else s.qactmap }

def dispqPopLocked : Option (Fin N × Sys n N) := do
  let pri ← highest (s.qactmap c)
  let t ← s.head (.disp c pri)
  some (t, dispqPopAt s c pri t)

end Queues

section Switch

variable (s : Sys n N) (c : Fin n)

def unlock : Sys n N :=
  { s with
    held := match (s.cpu c).release with
      | none => s.held
      | some lock => update s.held lock false
    cpu := update s.cpu c { s.cpu c with release := none, phase := .run } }

-- The next thread is chosen: the outgoing one is kept back for its queue if it is to run again.
def commitTo (next : Fin N) (requeue : Bool) : Sys n N :=
  let k := s.cpu c
  if next = k.thread then unlock s c
  else
    let back := requeue && k.thread ≠ k.idle
    let s := if back then s.modify k.thread fun t => { t with state := .ready } else s
    (s.modify next fun t => { t with state := .running }).setCpu c
      { k with thread := next, pendingRequeue := if back then some k.thread else none, phase := .switching k.thread }

def commit : Option (Sys n N) :=
  match (s.cpu c).phase with
  | .found next requeue => some (commitTo s c next requeue)
  | _ => none

/-- switch_to_next up to the end of its first section under the queue's lock. -/
def enter (requeue : Bool) : Sys n N :=
  let s := s.setPhase c (.empty requeue)
  match dispqPopLocked s c with
  | none => s
  | some (t, s) => commitTo (s.setPhase c (.found t requeue)) c t requeue

def giveUp (requeue : Bool) : Sys n N :=
  if requeue then unlock s c else s.setPhase c (.found (s.cpu c).idle requeue)

def trySteal (victim : Option (Fin n)) : Option (Sys n N) :=
  match (s.cpu c).phase with
  | .empty requeue =>
    match victim with
    | none => some (giveUp s c requeue)
    | some v =>
      if v = c then none
      else
        match dispqPopLocked s v with
        | none => some (giveUp s c requeue)
        | some (t, s) => some (s.setPhase c (.found t requeue))
  | _ => none

-- The save phase comes before the load phase.
def contextSwitch : Option (Sys n N) :=
  match (s.cpu c).phase with
  | .switching prev =>
    some { s.setPhase c .saved with
      context := update (update s.context prev none) (s.cpu c).thread (some c) }
  | _ => none

def drain : Option (Sys n N) :=
  match (s.cpu c).phase with
  | .saved =>
    let s' := s.setCpu c { s.cpu c with pendingRequeue := none, phase := .drained }
    match (s.cpu c).pendingRequeue with
    | none => some s'
    | some t => some (dispqPushLocked s' c t)
  | _ => none

def finish : Option (Sys n N) :=
  match (s.cpu c).phase with
  | .drained => some (unlock s c)
  | _ => none

/-- kthread_yield on processor c with the curcpu() that its thread read on another one. The registers of c are saved as
those of the thread that runs there, and the switch ends with the locks of c: the cpu_thread_lock it took stays held. -/
def yieldOn (read : Fin n) (victim : Option (Fin n)) : Option (Sys n N) :=
  let prev := (s.cpu read).thread
  if c = read ∨ victim = some read ∨ (s.cpu c).phase ≠ .run ∨ (s.cpu read).phase ≠ .run then none
  else
    match (dispqPopLocked s read).or (victim.bind (dispqPopLocked s)) with
    | none => some s
    | some (t, s) =>
      if t = prev then some s
      else some { (commitTo s read t true).setPhase read .stuck with
        context := update (update s.context prev none) t (some c) }

end Switch

section Sleep

/-- The wake-up of a whole chain, up to its end; none where the loop runs on. -/
def wakeLoop (mark : Kthread N → Kthread N) (next : Fin N → Option (Fin N)) :
    Nat → Option (Fin N) → (Fin N → Option (Kthread N)) → Option (Fin N → Option (Kthread N))
  | 0, _, _ => none
  | _ + 1, none, threads => some threads
  | fuel + 1, some t, threads =>
    wakeLoop mark next fuel (next t) (update threads t ((threads t).map mark))

def wakeup (k : Kthread N) : Kthread N := k.ready.clWakeup

variable (s : Sys n N)

-- The chain of a wait queue goes to a waker.
def wakeChain (mark : Kthread N → Kthread N) (wq : WaitQueue N) (w : Nat) : Option (Sys n N) :=
  (wakeLoop mark s.next (N + 1) (s.head (.wait wq)) s.threads).map fun threads =>
    { s with
      threads
      head := update (update s.head (.wait wq) none) (.hand w) (s.head (.wait wq)) }

def kthreadWakeAll (wq : WaitQueue N) (w : Nat) : Option (Sys n N) :=
  if s.held (.sq wq) || !s.isFree (.hand w) then none else wakeChain s wakeup wq w

def kthreadWakeOne (wq : WaitQueue N) (w : Nat) : Option (Sys n N) :=
  if s.held (.sq wq) || !s.isFree (.hand w) then none
  else
    match s.head (.wait wq) with
    | none => some s
    | some t => some ((((s.modify t wakeup).setHead (.wait wq) (s.next t)).setNext t none).setHead (.hand w) (some t))

-- The queue was read from waiting_on without its lock; the test is made again under the lock.
def kthreadSignal (t : Fin N) (wq : WaitQueue N) (w : Nat) : Option (Sys n N) :=
  if s.held (.sq wq) || !s.isFree (.hand w) then none
  else
    match s.threads t with
    | none => none
    | some k =>
      if k.state = .blocked ∧ k.waitingOn = some wq then
        (Links.remove s.next (s.head (.wait wq)) t (N + 1)).map fun (next, head) =>
          (({ s with next }.modify t wakeup).setHead (.wait wq) head).setHead (.hand w) (some t)
      else some s

def kthreadSleepOnLocked (c : Fin n) (wq : WaitQueue N) : Option (Sys n N) :=
  let t := (s.cpu c).thread
  if (s.cpu c).phase = .run ∧ s.held (.sq wq) = false then
    some { ((s.modify t fun k => { k with state := .blocked, waitingOn := some wq }).setNext t
        (s.head (.wait wq))).setHead (.wait wq) (some t) with
      held := update s.held (.sq wq) true
      cpu := update s.cpu c { s.cpu c with release := some (.sq wq), phase := .leaving } }
  else none

-- The waiters are taken over under the lock of thread_exit_wq; to_reap_lock stays held.
def kthreadExit (c : Fin n) (w : Nat) : Option (Sys n N) :=
  let t := (s.cpu c).thread
  if (s.cpu c).phase = .run ∧ s.held .reap = false ∧ s.held (.sq .threadExit) = false ∧ s.isFree (.hand w) then
    wakeChain
      { ((s.modify t fun k => { k with state := .dead }).setNext t (s.head .reap)).setHead .reap (some t) with
        held := update s.held .reap true
        cpu := update s.cpu c { s.cpu c with release := some .reap, phase := .leaving } }
      Kthread.ready .threadExit w
  else none

end Sleep

section Steps

def newThread : Kthread N := Kthread.clFork ⟨.ready, none, 0, .sys, 0⟩

section

variable (s : Sys n N)

-- The creator holds the thread until it dispatches it.
def kthreadCreate (t : Fin N) (w : Nat) : Option (Sys n N) :=
  if (s.threads t).isSome || !s.isFree (.hand w) then none
  else some (({ s with threads := update s.threads t (some newThread) }.setNext t none).setHead (.hand w) (some t))

def dispqPush (w : Nat) (c : Fin n) : Option (Sys n N) :=
  match s.head (.hand w) with
  | none => none
  | some t => some (dispqPushLocked ((s.setHead (.hand w) (s.next t)).setNext t none) c t)

def grabReap (r : Nat) : Option (Sys n N) :=
  if s.held .reap || !s.isFree (.drain r) then none
  else some ((s.setHead .reap none).setHead (.drain r) (s.head .reap))

def freeThread (r : Nat) : Option (Sys n N) :=
  match s.head (.drain r) with
  | none => none
  | some t => some { s.setHead (.drain r) (s.next t) with threads := update s.threads t none }

inductive Event (n N : Nat) where
  | create (t : Fin N) (w : Nat)
  | push (w : Nat) (c : Fin n)
  | setclass (t : Fin N) (cid : Sclass)
  | tick (c : Fin n)
  | yield (c : Fin n)
  | yieldOn (c read : Fin n) (victim : Option (Fin n))
  | sleep (c : Fin n) (wq : WaitQueue N)
  | exit (c : Fin n) (w : Nat)
  | enter (c : Fin n)
  | steal (c : Fin n) (victim : Option (Fin n))
  | commit (c : Fin n)
  | swtch (c : Fin n)
  | drain (c : Fin n)
  | finish (c : Fin n)
  | wakeOne (wq : WaitQueue N) (w : Nat)
  | wakeAll (wq : WaitQueue N) (w : Nat)
  | signal (t : Fin N) (wq : WaitQueue N) (w : Nat)
  | grab (r : Nat)
  | free (r : Nat)
  deriving DecidableEq

def step : Event n N → Option (Sys n N)
  | .create t w => kthreadCreate s t w
  | .push w c => dispqPush s w c
  | .setclass t cid => some (s.modify t fun k => k.setclass cid)
  | .tick c => some (s.modify (s.cpu c).thread Kthread.clTick)
  | .yield c => if (s.cpu c).phase = .run then some (enter s c true) else none
  | .yieldOn c read victim => yieldOn s c read victim
  | .sleep c wq => kthreadSleepOnLocked s c wq
  | .exit c w => kthreadExit s c w
  | .enter c => if (s.cpu c).phase = .leaving then some (enter s c false) else none
  | .steal c victim => trySteal s c victim
  | .commit c => commit s c
  | .swtch c => contextSwitch s c
  | .drain c => drain s c
  | .finish c => finish s c
  | .wakeOne wq w => kthreadWakeOne s wq w
  | .wakeAll wq w => kthreadWakeAll s wq w
  | .signal t wq w => kthreadSignal s t wq w
  | .grab r => grabReap s r
  | .free r => freeThread s r

/-- The idle threads neither sleep nor exit, and every yield acts on its own processor. -/
def orderly : Event n N → Prop
  | .sleep c _ | .exit c _ => (s.cpu c).thread ≠ (s.cpu c).idle
  | .yieldOn .. => False
  | _ => True

end

instance (s : Sys n N) : (event : Event n N) → Decidable (orderly s event)
  | .sleep c _ | .exit c _ => inferInstanceAs (Decidable ((s.cpu c).thread ≠ (s.cpu c).idle))
  | .yieldOn .. => .isFalse id
  | .create .. | .push .. | .setclass .. | .tick _ | .yield _ | .enter _ | .steal .. | .commit _ | .swtch _ | .drain _
  | .finish _ | .wakeOne .. | .wakeAll .. | .signal .. | .grab _ | .free _ => .isTrue trivial

structure Booted (s : Sys n N) : Prop where
  idle : ∀ c, (s.cpu c).thread = (s.cpu c).idle
  quiet : ∀ c, (s.cpu c).phase = .run ∧ (s.cpu c).pendingRequeue = none ∧ (s.cpu c).release = none
  own : ∀ c c', (s.cpu c).idle = (s.cpu c').idle → c = c'
  threads : ∀ t, (s.threads t).isSome = true ↔ ∃ c, (s.cpu c).idle = t
  running : ∀ t k, s.threads t = some k → k.state = .running
  head : ∀ q, s.head q = none
  tail : ∀ c pri, s.tail c pri = none
  map : ∀ c pri, s.qactmap c pri = false
  held : ∀ lock, s.held lock = false
  context : ∀ t c, s.context t = some c ↔ (s.cpu c).idle = t

end Steps

end Kappara.Sched
