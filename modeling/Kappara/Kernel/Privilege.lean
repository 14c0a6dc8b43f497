import Kappara.Kernel.Signal
import Kappara.Lib.Run

/-! The caller-privilege flag (syscall_from_user of uts/os/core/uaccess.c, set and
cleared by the SVC path of uts/aarch64/trap.c).

The flag is one global. A system call sets it on entry from the level it came
from and clears it when it is done, but system calls are preemptible and may
block, so the calls of other threads can come in between. A thread that exits
inside a call leaves the flag as it is. -/

set_option autoImplicit false

namespace Kappara.Privilege

open Signal

structure Call where
  tid : Nat
  user : Bool
  deriving DecidableEq

structure Reading where
  call : Call
  value : Bool
  deriving DecidableEq

structure State where
  syscallFromUser : Bool
  calls : List Call
  readings : List Reading
  deriving DecidableEq

/-- One step of one thread; a preempted or blocked thread is one that takes none for a while. -/
inductive Step where
  | svc (tid : Nat) (spsr : BitVec 64)
  | test (tid : Nat)
  | finish (tid : Nat)
  | exit (tid : Nat)
  deriving DecidableEq

def fromUser (spsr : BitVec 64) : Bool := modeBits spsr == 0

def callOf (s : State) (tid : Nat) : Option Call := s.calls.find? fun call => call.tid == tid

def others (s : State) (tid : Nat) : List Call := s.calls.filter fun call => call.tid != tid

def step (s : State) : Step → Option State
  | .svc tid spsr =>
    match callOf s tid with
    | some _ => none
    | none => some { s with syscallFromUser := fromUser spsr, calls := ⟨tid, fromUser spsr⟩ :: s.calls }
  | .test tid =>
    match callOf s tid with
    | none => none
    | some call => some { s with readings := s.readings ++ [⟨call, s.syscallFromUser⟩] }
  | .finish tid =>
    match callOf s tid with
    | none => none
    | some _ => some { s with syscallFromUser := false, calls := others s tid }
  | .exit tid =>
    match callOf s tid with
    | none => none
    | some _ => some { s with calls := others s tid }

def booted : State := ⟨false, [], []⟩

def agrees (s : State) : Step → Prop
  | .svc tid spsr => ∀ call ∈ others s tid, call.user = fromUser spsr
  | .test _ => True
  | .finish tid => ∀ call ∈ others s tid, call.user = false
  | .exit _ => True

instance (s : State) : (st : Step) → Decidable (agrees s st)
  | .svc tid spsr => inferInstanceAs (Decidable (∀ call ∈ others s tid, call.user = fromUser spsr))
  | .test _ => .isTrue trivial
  | .finish tid => inferInstanceAs (Decidable (∀ call ∈ others s tid, call.user = false))
  | .exit _ => .isTrue trivial

def Own (s : State) : Prop := ∀ call ∈ s.calls, s.syscallFromUser = call.user

variable {s s' : State} {st : Step} {tid : Nat} {call : Call}

theorem others_eq (absent : callOf s tid = none) : others s tid = s.calls := by
  rw [callOf, List.find?_eq_none] at absent
  rw [others, List.filter_eq_self]
  intro call member
  simpa using absent call member

inductive Moved (s : State) : Step → State → Prop where
  | svc {tid : Nat} {spsr : BitVec 64} : callOf s tid = none →
      Moved s (.svc tid spsr) { s with syscallFromUser := fromUser spsr, calls := ⟨tid, fromUser spsr⟩ :: s.calls }
  | test {tid : Nat} {call : Call} : call ∈ s.calls →
      Moved s (.test tid) { s with readings := s.readings ++ [⟨call, s.syscallFromUser⟩] }
  | finish {tid : Nat} : Moved s (.finish tid) { s with syscallFromUser := false, calls := others s tid }
  | exit {tid : Nat} : Moved s (.exit tid) { s with calls := others s tid }

theorem step_moved (made : step s st = some s') : Moved s st s' := by
  unfold step at made
  split at made
  · split at made
    · cases made
    next absent =>
      cases made
      exact .svc absent
  · split at made
    · cases made
    next found =>
      cases made
      exact .test (List.mem_of_find?_eq_some found)
  · split at made
    · cases made
    · cases made
      exact .finish
  · split at made
    · cases made
    · cases made
      exact .exit

/-- A step keeps the flag right for all calls exactly when it agrees with those of other threads. -/
theorem Own.moved_iff (own : Own s) (moved : Moved s st s') : Own s' ↔ agrees s st := by
  cases moved with
  | svc absent =>
    simp only [Own, agrees, others_eq absent, List.forall_mem_cons, true_and]
    exact forall₂_congr fun call member => eq_comm
  | test found =>
    simp only [agrees, iff_true]
    exact own
  | finish =>
    exact forall₂_congr fun call member => eq_comm
  | exit =>
    simp only [agrees, iff_true]
    exact fun call member => own call (List.mem_filter.mp member).1

/-- Every test so far read the privilege of its caller, and so would one made now. -/
structure Right (s : State) : Prop where
  readings : ∀ reading ∈ s.readings, reading.value = reading.call.user
  own : Own s

theorem Right.moved (right : Right s) (moved : Moved s st s') (allowed : agrees s st) : Right s' := by
  refine ⟨?_, (right.own.moved_iff moved).mpr allowed⟩
  cases moved with
  | test found =>
    intro reading member
    rcases List.mem_append.mp member with earlier | new
    · exact right.readings reading earlier
    · rw [List.mem_singleton.mp new]
      exact right.own _ found
  | svc | finish | exit => exact right.readings

theorem Right.booted : Right booted := ⟨by simp [Privilege.booted], by simp [Own, Privilege.booted]⟩

/-- In a run whose steps agree with the calls in progress every test reads the privilege of its caller; a
step that does not agree takes the flag from a call in progress. -/
theorem flag_belongs_to_caller (reached : Run.Reach step agrees (· = booted) s) :
    (∀ reading ∈ s.readings, reading.value = reading.call.user) ∧ (∀ call ∈ s.calls, s.syscallFromUser = call.user) ∧
      ∀ st s', step s st = some s' → ((∀ call ∈ s'.calls, s'.syscallFromUser = call.user) ↔ agrees s st) := by
  have right : Right s := by
    apply reached.invariant
    · rintro s rfl
      exact .booted
    · intro s st s' right allowed made
      exact right.moved (step_moved made) allowed
  exact ⟨right.readings, right.own, fun st s' made => right.own.moved_iff (step_moved made)⟩

def twoUserCalls : List Step := [.svc 1 0, .svc 2 0, .test 1, .test 2]

theorem flag_belongs_to_caller_two_user_calls :
    ∃ s, Run.Reach step agrees (· = booted) s ∧ s.readings.length = 2 ∧
      ∀ reading ∈ s.readings, reading.value = reading.call.user := by
  obtain ⟨s, reached, two⟩ : ∃ s, Run.Reach step agrees (· = booted) s ∧ s.readings.length = 2 :=
    Run.Reach.found twoUserCalls rfl (by decide)
  exact ⟨s, reached, two, (flag_belongs_to_caller reached).1⟩

def finishedBetween : List Step := [.svc 1 0, .svc 2 0, .finish 2, .test 1]

/-- A call from EL0 reads that it comes from the kernel. -/
theorem user_call_reads_kernel :
    ∃ s, Run.Reach step (fun _ _ => True) (· = booted) s ∧ ∃ reading ∈ s.readings, reading.call.user = true ∧
      reading.value = false := Run.Reach.found finishedBetween rfl (by decide)

end Kappara.Privilege
