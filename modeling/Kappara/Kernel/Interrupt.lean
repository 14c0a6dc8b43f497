import Kappara.Kernel.Fault
import Kappara.Kernel.Handlers

/-! Waits that a pending signal ends (stream_read and stream_getmsg of
uts/os/io/stream_head.c, sys_wait_impl of uts/os/proc/signal.c).

Each wait loop looks at the pending set under the lock of its queue and gives up with -1
where a fatal signal is in it. The mask and the dispositions, by which check_signals
then decides on the way out, are not looked at. -/

set_option autoImplicit false

namespace Kappara.Signal

open Uaccess

/-- How a round of a wait loop ends. -/
inductive Round where
  | found
  | ended
  | interrupted
  | timedOut
  | sleeps
  deriving DecidableEq

def pendingFatal (t : Thread) : Bool := t.pending &&& sigFatalMask != 0

/-- getq, SD_EOF, the pending signals, the deadline; stream_getmsg has the same round and fails at SD_EOF. -/
def streamReadRound (t : Thread) (message eof expired : Bool) : Round :=
  if message then .found
  else if eof then .ended
  else if pendingFatal t then .interrupted
  else if expired then .timedOut
  else .sleeps

/-- stream_read tests once more when it wakes up. -/
def streamReadWoken (t : Thread) : Round := if pendingFatal t then .interrupted else .sleeps

def sysWaitRound (t : Thread) (gone : Bool) : Round :=
  if gone then .found
  else if pendingFatal t then .interrupted
  else .sleeps

/-- The places where a wait can be given up. -/
inductive WaitSite where
  | read (message eof expired : Bool)
  | readWoken
  | getmsg (message eof expired : Bool)
  | wait (gone : Bool)

def WaitSite.round (t : Thread) : WaitSite → Round
  | .read message eof expired | .getmsg message eof expired => streamReadRound t message eof expired
  | .readWoken => streamReadWoken t
  | .wait gone => sysWaitRound t gone

def Outcome.delivers : Outcome → Bool
  | .resumed _ _ _ => false
  | .exited | .handling _ _ _ _ => true

variable {t : Thread} {sig : Signo}

theorem arrived_grows (arrived : List Signo) (t : Thread) (pending : has t.pending sig = true) :
    has (arrived.foldl kthreadSignal t).pending sig = true ∧ (arrived.foldl kthreadSignal t).actions = t.actions := by
  induction arrived generalizing t with
  | nil => exact ⟨pending, rfl⟩
  | cons new rest ih =>
    have grown : has (kthreadSignal t new).pending sig = true ∧ (kthreadSignal t new).actions = t.actions := by
      unfold kthreadSignal
      split
      · exact ⟨pending, rfl⟩
      · exact ⟨by simp [pending], rfl⟩
    obtain ⟨kept, actions⟩ := ih (kthreadSignal t new) grown.1
    exact ⟨kept, actions.trans grown.2⟩

theorem has_deliverable_eq (real : sig ∈ signals) :
    has t.deliverable sig = (has t.pending sig && (!has t.sigMask sig || decide (sig = sigkill))) := by
  have kill : sigkill ∈ signals := by decide
  simp [Thread.deliverable, has_or, has_and, has_not, has_sigbit real kill, Bool.and_or_distrib_left]

/-- Signals that arrive before the call is out take nothing back. -/
theorem Thread.Takes.arrived (takes : t.Takes sig) (arrived : List Signo) :
    (arrived.foldl kthreadSignal t).Takes sig := by
  obtain ⟨real, deliverable, acts⟩ := takes
  obtain ⟨pending, actions⟩ := arrived_grows arrived t (has_deliverable deliverable)
  have mask : (arrived.foldl kthreadSignal t).sigMask = t.sigMask :=
    congrArg Kthread.sigMask (arrived_fields arrived t).1
  rw [has_deliverable_eq real, Bool.and_eq_true] at deliverable
  refine ⟨real, ?_, ?_⟩
  · rw [has_deliverable_eq real, pending, mask, deliverable.2, Bool.and_self]
  · unfold Thread.Acts Thread.handler at acts ⊢
    rwa [actions]

theorem delivers_iff (t : Thread) (user : UserSpace) (tf : TrapFrame) :
    (checkSignals t user tf).delivers = true ↔ ∃ sig, t.Takes sig := by
  have checked := checkSignals_checked t user tf
  generalize checkSignals t user tf = out at checked ⊢
  cases checked with
  | exited takes | handling takes => exact iff_of_true rfl ⟨_, takes⟩
  | resumed none => exact iff_of_false Bool.false_ne_true (not_exists.mpr none)

/-- Neither blocked nor ignored. -/
def Thread.Wants (t : Thread) (sig : Signo) : Prop :=
  (has t.sigMask sig = false ∨ sig = sigkill) ∧ t.handler sig ≠ sigIgn

instance : Decidable (t.Wants sig) := inferInstanceAs (Decidable (_ ∧ _))

/-- The thread as it is if what is blocked or ignored has not come. -/
def Thread.undisturbed (t : Thread) : Thread := (signals.filter fun sig => ¬ t.Wants sig).foldl Thread.consume t

theorem consumed_pending (real : sig ∈ signals) (gone : List Signo) (valid : ∀ sig ∈ gone, sig ∈ signals) (t : Thread) :
    has (gone.foldl Thread.consume t).pending sig = (has t.pending sig && decide (sig ∉ gone)) := by
  induction gone generalizing t with
  | nil => simp
  | cons first rest ih =>
    obtain ⟨here, later⟩ := List.forall_mem_cons.mp valid
    rw [List.foldl_cons, ih later, Thread.consume, has_and, has_not, has_sigbit real here]
    simp [Bool.and_assoc]

theorem undisturbed_pending (real : sig ∈ signals) :
    has t.undisturbed.pending sig = (has t.pending sig && decide (t.Wants sig)) := by
  rw [Thread.undisturbed, consumed_pending real _ (fun sig kept => List.mem_of_mem_filter kept)]
  simp [real]

theorem pendingFatal_iff : pendingFatal t = true ↔
    ∃ sig ∈ signals, has t.pending sig = true ∧ has sigFatalMask sig = true := by
  rw [pendingFatal, bne_iff_ne]
  constructor
  · intro some
    by_contra none
    push Not at none
    refine some (BitVec.eq_of_getLsbD_eq fun i inside => ?_)
    by_cases top : i = 31
    · subst top
      rw [BitVec.getLsbD_and, show sigFatalMask.getLsbD 31 = false by decide, Bool.and_false]
      rfl
    · have clear := none ⟨i + 1, by omega⟩ (mem_signals.mpr (by simp [Fin.ext_iff]))
      simp only [has_eq, Nat.add_sub_cancel] at clear
      grind
  · rintro ⟨sig, real, pending, fatal⟩ zero
    have : has (t.pending &&& sigFatalMask) sig = true := by rw [has_and, pending, fatal]; rfl
    rw [zero] at this
    exact absurd this (by simp)

/-- The queue holds nothing and is not at its end, or the child is still there. -/
def WaitSite.waiting : WaitSite → Bool
  | .read message eof _ | .getmsg message eof _ => !message && !eof
  | .readWoken => true
  | .wait gone => !gone

theorem round_interrupted (site : WaitSite) (t : Thread) :
    site.round t = .interrupted ↔ site.waiting = true ∧ pendingFatal t = true := by
  cases site <;> simp only [WaitSite.round, WaitSite.waiting, streamReadRound, streamReadWoken, sysWaitRound] <;> grind

/-- A wait that is given up delivers a signal, and would be given up without the blocked and the ignored ones too,
exactly if there is nothing to wait with, or one of the pending fatal signals is neither blocked nor ignored. -/
theorem interrupted_delivers_iff (site : WaitSite) (t : Thread) :
    (site.round t = .interrupted →
      (∀ (arrived : List Signo) (user : UserSpace) (tf : TrapFrame),
        (checkSignals (arrived.foldl kthreadSignal t) user tf).delivers = true) ∧
      site.round t.undisturbed = .interrupted) ↔
    (site.waiting = true → (∃ sig ∈ signals, has t.pending sig = true ∧ has sigFatalMask sig = true) →
      ∃ sig ∈ signals, has t.pending sig = true ∧ has sigFatalMask sig = true ∧ t.Wants sig) := by
  have undisturbed : pendingFatal t.undisturbed = true ↔
      ∃ sig ∈ signals, has t.pending sig = true ∧ has sigFatalMask sig = true ∧ t.Wants sig := by
    rw [pendingFatal_iff]
    refine exists_congr fun sig => and_congr_right fun real => ?_
    rw [undisturbed_pending real]
    grind
  rw [round_interrupted, round_interrupted, ← pendingFatal_iff, and_imp]
  refine imp_congr_right fun waiting => imp_congr_right fun _ => ?_
  rw [undisturbed]
  refine ⟨fun both => both.2.2, fun wanted => ⟨fun arrived user tf => ?_, waiting, wanted⟩⟩
  obtain ⟨sig, real, pending, fatal, unblocked, caught⟩ := wanted
  have takes : t.Takes sig := ⟨real, by simpa [has_deliverable_eq real, pending] using unblocked, caught,
    fun _ => fatal⟩
  exact (delivers_iff _ user tf).mpr ⟨sig, takes.arrived arrived⟩

def interruptPending (mask : BitVec 32) (handler : BitVec 64) : Thread :=
  { sigMask := mask, pending := sigbit 2, savedMask := 0, savePending := false,
    actions := some fun _ => ⟨handler, 0, 0⟩ }

/-- A read, a getmsg and a wait are given up for a SIGINT that is blocked or ignored, and nothing is delivered. -/
theorem blocked_interrupts : ([interruptPending (sigbit 2) sigDfl, interruptPending 0 sigIgn].all fun t =>
    ([WaitSite.read false false false, .readWoken, .getmsg false false false, .wait false].all fun site =>
      site.round t = .interrupted) && !(checkSignals t ⟨fun _ => 0, []⟩ abortFrame).delivers) = true := by
  decide +kernel

end Kappara.Signal
