import Kappara.Kernel.Delivery

/-! Faults of user code (trap_dispatch of uts/aarch64/trap.c).

A synchronous fault from EL0 makes SIGSEGV pending and goes through the delivery of
signals like a system call does. Delivery looks at the mask and the dispositions, so
a fault whose SIGSEGV is blocked or ignored falls through to the faulting instruction
unless some other signal ends the thread or enters a handler. -/

set_option autoImplicit false

namespace Kappara.Signal

open ByteMemory Uaccess

inductive VecKind where
  | sync
  | irq
  | fiq
  | error
  deriving DecidableEq

inductive VecLevel where
  | sp0
  | spx
  | lo64
  | lo32
  deriving DecidableEq

/-- The sixteen entries of the vector table. -/
structure Vec where
  kind : VecKind
  level : VecLevel
  deriving DecidableEq

def vecSyncLo64 : Vec := ⟨.sync, .lo64⟩

def exceptionClass (tf : TrapFrame) : BitVec 64 := (tf.esr >>> 26) &&& 0x3f

def sysSigreturn : BitVec 64 := 23

/-- What a system call other than sigreturn leaves behind; none where it does not come back. -/
abbrev Dispatch := Thread → UserSpace → TrapFrame → Option (BitVec 64 × Thread × UserSpace)

inductive Trap where
  | irq
  | panic
  | back (out : Outcome)

-- SIGSEGV becomes pending; a handler for it is made to run once.
def Thread.fault (t : Thread) : Thread :=
  { t with
    pending := t.pending ||| sigbit sigsegv
    actions := t.actions.map fun table =>
      if (table sigsegv).handler ≠ sigDfl ∧ (table sigsegv).handler ≠ sigIgn then
        Function.update table sigsegv { table sigsegv with flags := (table sigsegv).flags ||| saResethand }
      else table }

def trapDispatch (dispatch : Dispatch) (vec : Vec) (t : Thread) (user : UserSpace) (tf : TrapFrame) : Trap :=
  if vec.kind = .irq then .irq
  else if exceptionClass tf = 0x15 then
    if tf.x 8 = sysSigreturn then
      let ret := trapSigreturn (some t.toKthread) user tf
      .back (.resumed { t with toKthread := ret.thread.getD t.toKthread } ret.user ret.frame)
    else
      match dispatch t user tf with
      | none => .back .exited
      | some (result, t, user) => .back (checkSignals t user { tf with x := Function.update tf.x 0 result })
  else if vec = vecSyncLo64 then .back (checkSignals t.fault user tf)
  else .panic

/-- The thread is gone, or goes on at the entry of a handler it has registered. -/
def Progress (t : Thread) : Trap → Prop
  | .back .exited => True
  | .back (.handling sig _ _ tf) => ∃ table, t.actions = some table ∧ (table sig).handler ≠ sigDfl ∧
      (table sig).handler ≠ sigIgn ∧ tf.elr = (table sig).handler
  | _ => False

section

variable {dispatch : Dispatch} {t : Thread} {user : UserSpace} {tf : TrapFrame} {sig : Signo}

theorem fault_table {table : Actions} (faulted : t.fault.actions = some table) :
    ∃ before, t.actions = some before ∧ ∀ sig, (table sig).handler = (before sig).handler := by
  obtain ⟨before, actions, rfl⟩ := Option.map_eq_some_iff.mp faulted
  refine ⟨before, actions, fun sig => ?_⟩
  split
  · rw [Function.update_apply]
    split
    next same => rw [same]
    · rfl
  · rfl

theorem fault_handler (t : Thread) (sig : Signo) : t.fault.handler sig = t.handler sig := by
  simp only [Thread.handler]
  cases actions : t.actions with
  | none => simp [Thread.fault, actions]
  | some table =>
    cases faulted : t.fault.actions with
    | none => simp [Thread.fault, actions] at faulted
    | some after =>
      obtain ⟨before, same, handlers⟩ := fault_table faulted
      cases actions.symm.trans same
      simp [handlers]

theorem fault_acts : t.fault.Acts sig ↔ t.Acts sig := by
  rw [Thread.Acts, Thread.Acts, fault_handler]

theorem fault_deliverable (real : sig ∈ signals) :
    has t.fault.deliverable sig = (has t.deliverable sig || (decide (sig = sigsegv) && !has t.sigMask sig)) := by
  have segv : sigsegv ∈ signals := by decide
  simp only [Thread.deliverable, Thread.fault, has_or, has_and, has_not, has_sigbit real segv]
  by_cases same : sig = sigsegv
  · subst same
    cases has t.pending sigsegv <;> cases has t.sigMask sigsegv <;> decide
  · simp [same]

/-- After a fault some signal is taken exactly when SIGSEGV is or one was before. -/
theorem fault_takes : (∃ sig, t.fault.Takes sig) ↔
    (has t.sigMask sigsegv = false ∧ t.handler sigsegv ≠ sigIgn) ∨ ∃ sig, t.Takes sig := by
  constructor
  · rintro ⟨sig, real, wanted, acts⟩
    rw [fault_acts] at acts
    rw [fault_deliverable real, Bool.or_eq_true] at wanted
    cases wanted with
    | inl before => exact .inr ⟨sig, real, before, acts⟩
    | inr segv =>
      simp only [Bool.and_eq_true, decide_eq_true_eq, Bool.not_eq_true'] at segv
      obtain ⟨rfl, unblocked⟩ := segv
      exact .inl ⟨unblocked, acts.1⟩
  · rintro (⟨unblocked, caught⟩ | ⟨sig, real, before, acts⟩)
    · have real : sigsegv ∈ signals := by decide
      refine ⟨sigsegv, real, ?_, fault_acts.mpr ⟨caught, fun _ => by decide⟩⟩
      simp [fault_deliverable real, unblocked]
    · exact ⟨sig, real, by simp [fault_deliverable real, before], fault_acts.mpr acts⟩

theorem trapDispatch_fault (fault : exceptionClass tf ≠ 0x15) :
    trapDispatch dispatch vecSyncLo64 t user tf = .back (checkSignals t.fault user tf) := by
  rw [trapDispatch, if_neg (by decide), if_neg fault, if_pos rfl]

end

def faulting (mask : BitVec 32) (handler : BitVec 64) : Thread :=
  { sigMask := mask, pending := 0, savedMask := 0, savePending := false, actions := some fun _ => ⟨handler, 0, 0⟩ }

def abortFrame : TrapFrame := ⟨fun _ => 0, 0x10100000, 0x10000000, 0, 0x92000006, 0⟩

def noDispatch : Dispatch := fun _ _ _ => none

def Trap.refaults (tf : TrapFrame) : Trap → Bool
  | .back (.resumed _ _ tf') => tf'.elr == tf.elr && tf'.spEl0 == tf.spEl0
  | _ => false

end Kappara.Signal
