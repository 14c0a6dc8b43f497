import Kappara.Kernel.Signal

/-! Delivery of signals (check_signals and sendsig of uts/os/proc/signal.c, the
synchronous part of trap_dispatch of uts/aarch64/trap.c).

On the way out of a trap the lowest deliverable signal is taken from the pending set.
A default action ends the thread or drops the signal, an ignored signal is dropped, and
a caught one gets a frame on the user stack and a trap frame that enters its handler. -/

set_option autoImplicit false

namespace Kappara.Signal

open ByteMemory Uaccess

/-- NSIG is 32; the signals are 1 to 31. -/
abbrev Signo := Fin 32

def sigkill : Signo := 9
def sigsegv : Signo := 11

def sigbit (sig : Signo) : BitVec 32 := 1#32 <<< (sig.val - 1)

/-- SIGHUP, SIGINT, SIGQUIT, SIGKILL, SIGPIPE, SIGTERM, SIGSEGV and SIGABRT. -/
def sigFatalMask : BitVec 32 :=
  sigbit 1 ||| sigbit 2 ||| sigbit 3 ||| sigbit sigkill ||| sigbit 13 ||| sigbit 15 ||| sigbit sigsegv ||| sigbit 6

def sigDfl : BitVec 64 := 0
def sigIgn : BitVec 64 := 1

def saResethand : BitVec 32 := 4

def has (set : BitVec 32) (sig : Signo) : Bool := set &&& sigbit sig != 0

structure Sigaction where
  handler : BitVec 64
  mask : BitVec 32
  flags : BitVec 32
  deriving DecidableEq

abbrev Actions := Signo → Sigaction

/-- The signal state of a thread; the table of dispositions is allocated by the first sigaction. -/
structure Thread extends Kthread where
  pending : BitVec 32
  savedMask : BitVec 32
  savePending : Bool
  actions : Option Actions

namespace Thread

variable (t : Thread)

def deliverable : BitVec 32 := (t.pending &&& ~~~t.sigMask) ||| (t.pending &&& sigbit sigkill)

-- SIGKILL has no disposition of its own.
def handler (sig : Signo) : BitVec 64 :=
  if sig = sigkill then sigDfl
  else
    match t.actions with
    | none => sigDfl
    | some table => (table sig).handler

def consume (sig : Signo) : Thread := { t with pending := t.pending &&& ~~~sigbit sig }

-- The mask the thread comes back to: out of sigsuspend, the one before it.
def restoreMask : BitVec 32 := if t.savePending then t.savedMask else t.sigMask

-- The mask of a sigsuspend that no handler has taken over.
def unsuspend : Thread :=
  if t.savePending then { t with sigMask := t.savedMask, savePending := false } else t

end Thread

def signals : List Signo := (List.finRange 32).tail

def lowest (set : BitVec 32) : Option Signo := signals.find? (has set)

/-- The bytes of struct sigframe in memory. -/
def Sigframe.byte (fr : Sigframe) (k : Nat) : Byte :=
  if k < 8 then byteOf (fr.trampoline (Fin.ofNat 2 (k / 4))).toNat (k % 4)
  else if k < 12 then byteOf fr.signo.toNat (k - 8)
  else if k < 16 then byteOf fr.savedMask.toNat (k - 12)
  else if k < 264 then byteOf (fr.savedX (Fin.ofNat 31 ((k - 16) / 8))).toNat ((k - 16) % 8)
  else if k < 272 then byteOf fr.savedSpEl0.toNat (k - 264)
  else if k < 280 then byteOf fr.savedElr.toNat (k - 272)
  else byteOf fr.savedSpsr.toNat (k - 280)

def framePtr (sp : BitVec 64) : BitVec 64 := (sp - sigframeSize) &&& ~~~0xf#64

section

variable (t : Thread) (user : UserSpace) (tf : TrapFrame) (sig : Signo)

def sigframe (mask : BitVec 32) : Sigframe where
  trampoline i := if i = 0 then 0xD28002E8 else 0xD4000001
  signo := BitVec.ofNat 32 sig
  savedMask := mask
  savedX := tf.x
  savedSpEl0 := tf.spEl0
  savedElr := tf.elr
  savedSpsr := tf.spsr

/-- The trap frame that enters the handler: the trampoline is the first field of the frame. -/
def enter (handler : BitVec 64) : TrapFrame :=
  { tf with
    x := Function.update (Function.update tf.x 0 (BitVec.ofNat 64 sig)) 30 (framePtr tf.spEl0)
    elr := handler
    spEl0 := framePtr tf.spEl0 }

def sendsig (handler : BitVec 64) :
    Option (Thread × UserSpace × TrapFrame) :=
  if tf.spEl0 < sigframeSize then none
  else
    let sp := framePtr tf.spEl0
    if userPtrOk sp sigframeSize then
      match copyToUser user sp sigframeSize (sigframe tf sig t.restoreMask).byte with
      | (false, _) => none
      | (true, user) => some ({ t with savePending := false }, user, enter tf sig handler)
    else none

/-- How check_signals ends: the thread exits, goes on where it was, or enters a handler. -/
inductive Outcome where
  | exited
  | resumed (t : Thread) (user : UserSpace) (tf : TrapFrame)
  | handling (sig : Signo) (t : Thread) (user : UserSpace) (tf : TrapFrame)

-- The disposition of a caught signal after its delivery, and the mask its handler runs under.
def Thread.caught : Thread :=
  match t.actions with
  | none => t
  | some table =>
    { t with
      sigMask := t.sigMask ||| (table sig).mask ||| sigbit sig
      actions := some <|
        if (table sig).flags &&& saResethand ≠ 0 then
          Function.update table sig { table sig with handler := sigDfl }
        else table }

/-- The loop of check_signals; every round takes a signal out of the pending set. -/
def checkLoop : Nat → Thread → Outcome
  | 0, t => .resumed t user tf
  | fuel + 1, t =>
    if t.deliverable = 0 then .resumed t.unsuspend user tf
    else
      match lowest t.deliverable with
      | none => .resumed t user tf
      | some sig =>
        let t := t.consume sig
        if t.handler sig = sigDfl then
          if has sigFatalMask sig then .exited else checkLoop fuel t
        else if t.handler sig = sigIgn then checkLoop fuel t
        else
          match sendsig t user tf sig (t.handler sig) with
          | none => .exited
          | some (t, user, tf) => .handling sig (t.caught sig) user tf

def checkSignals : Outcome := checkLoop user tf 32 t

end

section Sets

variable {set other : BitVec 32} {sig sig' : Signo}

theorem has_eq (set : BitVec 32) (sig : Signo) : has set sig = set.getLsbD (sig.val - 1) := by
  have bit : sigbit sig = BitVec.twoPow 32 (sig.val - 1) := by rw [sigbit, BitVec.twoPow_eq]
  have inside : sig.val - 1 < 32 := by omega
  rw [has, bit, BitVec.and_twoPow]
  cases set.getLsbD (sig.val - 1) with
  | false => simp
  | true =>
    have value := BitVec.toNat_twoPow_of_lt inside
    have positive := Nat.two_pow_pos (sig.val - 1)
    simp only [if_true, bne_iff_ne, ne_eq, BitVec.toNat_eq, value]
    exact positive.ne'

@[simp] theorem has_zero : has 0#32 sig = false := by simp [has_eq]

@[simp] theorem has_or : has (set ||| other) sig = (has set sig || has other sig) := by simp [has_eq]

@[simp] theorem has_and : has (set &&& other) sig = (has set sig && has other sig) := by simp [has_eq]

@[simp] theorem has_not : has (~~~set) sig = !has set sig := by
  have inside : sig.val - 1 < 32 := by omega
  simp [has_eq, inside]

theorem mem_signals : sig ∈ signals ↔ sig ≠ 0 := by
  revert sig
  decide

theorem has_sigbit (real : sig ∈ signals) (real' : sig' ∈ signals) : has (sigbit sig') sig = decide (sig = sig') := by
  revert sig sig'
  decide

theorem lowest_some (found : lowest set = some sig) : sig ∈ signals ∧ has set sig = true :=
  ⟨List.mem_of_find?_eq_some found, List.find?_some found⟩

theorem lowest_none (absent : lowest set = none) (real : sig ∈ signals) : has set sig = false := by
  simpa using List.find?_eq_none.mp absent sig real

theorem eq_zero (empty : ∀ sig ∈ signals, has set sig = false) (top : set.getLsbD 31 = false) : set = 0 := by
  apply BitVec.eq_of_getLsbD_eq
  intro i inside
  by_cases last : i = 31
  · subst last
    simpa using top
  · have real : (⟨i + 1, by omega⟩ : Signo) ∈ signals := mem_signals.mpr (by simp)
    simpa [has_eq] using empty _ real

end Sets

section Checked

variable {t t' : Thread} {user user' : UserSpace} {tf tf' : TrapFrame} {sig sig' : Signo}

def Thread.Acts (t : Thread) (sig : Signo) : Prop :=
  t.handler sig ≠ sigIgn ∧ (t.handler sig = sigDfl → has sigFatalMask sig = true)

structure Thread.Takes (t : Thread) (sig : Signo) : Prop where
  real : sig ∈ signals
  deliverable : has t.deliverable sig = true
  acts : t.Acts sig

-- Delivery takes signals out of the pending set.
def Thread.Below (t' t : Thread) : Prop := ∀ i, t'.pending.getLsbD i = true → t.pending.getLsbD i = true

inductive Checked (t : Thread) (user : UserSpace) (tf : TrapFrame) : Outcome → Prop where
  | exited {sig : Signo} : t.Takes sig → Checked t user tf .exited
  | resumed {t' : Thread} : (∀ sig, ¬t.Takes sig) → t'.Below t →
      (t.pending.getLsbD 31 = false → t'.sigMask = t.restoreMask ∧ t'.savePending = false) →
      Checked t user tf (.resumed t' user tf)
  | handling {sig : Signo} {t' : Thread} {table : Actions} : t.Takes sig → t.actions = some table →
      (table sig).handler ≠ sigDfl → (table sig).handler ≠ sigIgn → t'.Below t → t'.savePending = false →
      ¬tf.spEl0 < sigframeSize → userPtrOk (framePtr tf.spEl0) sigframeSize = true →
      Checked t user tf (.handling sig t'
        (user.store (framePtr tf.spEl0) 288 (sigframe tf sig t.restoreMask).byte none)
          (enter tf sig (table sig).handler))

theorem consume_handler : (t.consume sig).handler sig' = t.handler sig' := rfl

theorem consume_below : (t.consume sig).Below t := by
  intro i pending
  simp only [Thread.consume, BitVec.getLsbD_and, Bool.and_eq_true] at pending
  exact pending.1

theorem consume_deliverable (real : sig ∈ signals) (real' : sig' ∈ signals) :
    has (t.consume sig).deliverable sig' = (has t.deliverable sig' && !decide (sig' = sig)) := by
  simp only [Thread.deliverable, Thread.consume, has_or, has_and, has_not, has_sigbit real' real]
  cases has t.pending sig' <;> cases has t.sigMask sig' <;> cases has (sigbit sigkill) sig' <;> simp

theorem Thread.Takes.consume (takes : t.Takes sig') (real : sig ∈ signals) (other : sig' ≠ sig) :
    (t.consume sig).Takes sig' :=
  ⟨takes.real, by simp [consume_deliverable real takes.real, takes.deliverable, other], takes.acts⟩

theorem Thread.Takes.of_consume (takes : (t.consume sig).Takes sig') (real : sig ∈ signals) : t.Takes sig' := by
  have deliverable := takes.deliverable
  rw [consume_deliverable real takes.real, Bool.and_eq_true] at deliverable
  exact ⟨takes.real, deliverable.1, takes.acts⟩

theorem Checked.of_consume {out : Outcome} (rest : Checked (t.consume sig) user tf out) (real : sig ∈ signals)
    (dropped : ¬t.Acts sig) : Checked t user tf out := by
  cases rest with
  | exited takes => exact .exited (takes.of_consume real)
  | resumed none below mask =>
    apply Checked.resumed
    · intro sig' takes
      by_cases same : sig' = sig
      · subst same
        exact dropped takes.acts
      · exact none sig' (takes.consume real same)
    · exact fun i pending => consume_below i (below i pending)
    · intro top
      apply mask
      simp only [Thread.consume, BitVec.getLsbD_and, top, Bool.false_and]
  | handling takes table dfl ign below clear room accepted =>
    exact .handling (takes.of_consume real) table dfl ign (fun i pending => consume_below i (below i pending)) clear
      room accepted

theorem has_deliverable (wanted : has t.deliverable sig = true) : has t.pending sig = true := by
  simp only [Thread.deliverable, has_or, has_and, Bool.or_eq_true, Bool.and_eq_true] at wanted
  rcases wanted with ⟨pending, _⟩ | ⟨pending, _⟩
  · exact pending
  · exact pending

-- The signals that are still pending bound the rounds.
def Thread.waiting (t : Thread) : Finset Signo := Finset.univ.filter fun sig => sig ∈ signals ∧ has t.pending sig = true

theorem waiting_consume (real : sig ∈ signals) (pending : has t.pending sig = true) :
    (t.consume sig).waiting.card < t.waiting.card := by
  apply Finset.card_lt_card
  rw [Finset.ssubset_iff_of_subset]
  · refine ⟨sig, by simp [Thread.waiting, real, pending], ?_⟩
    simp [Thread.waiting, Thread.consume, has_sigbit real real]
  · intro sig' waits
    simp only [Thread.waiting, Thread.consume, has_and, Finset.mem_filter, Bool.and_eq_true] at waits ⊢
    exact ⟨waits.1, waits.2.1, waits.2.2.1⟩

theorem waiting_card : t.waiting.card < 32 := by
  have inside : t.waiting ⊆ Finset.univ.erase 0 := by
    intro sig waits
    simp only [Thread.waiting, Finset.mem_filter] at waits
    simpa using mem_signals.mp waits.2.1
  have size := Finset.card_le_card inside
  simp only [Finset.mem_univ, Finset.card_erase_of_mem, Finset.card_univ, Fintype.card_fin] at size
  omega

theorem handler_caught (registered : t.handler sig ≠ sigDfl) :
    ∃ table, t.actions = some table ∧ t.handler sig = (table sig).handler := by
  rw [Thread.handler] at registered ⊢
  split at registered
  · exact absurd rfl registered
  next other =>
    split at registered
    · exact absurd rfl registered
    next table =>
      exact ⟨_, table, by simp [other]⟩

theorem caught_below : (t.caught sig).Below t := by
  intro i pending
  rw [Thread.caught] at pending
  split at pending
  · exact pending
  · exact pending

theorem caught_savePending : (t.caught sig).savePending = t.savePending := by
  rw [Thread.caught]
  split
  · rfl
  · rfl

theorem sendsig_some {handler : BitVec 64} (sent : sendsig t user tf sig handler = some (t', user', tf')) :
    ¬tf.spEl0 < sigframeSize ∧ userPtrOk (framePtr tf.spEl0) sigframeSize = true ∧ t'.pending = t.pending ∧
      t'.savePending = false ∧
      user' = user.store (framePtr tf.spEl0) 288 (sigframe tf sig t.restoreMask).byte none ∧
        tf' = enter tf sig handler := by
  obtain ⟨room, sent⟩ := Option.ite_none_left_eq_some.mp sent
  dsimp only at sent
  obtain ⟨accepted, sent⟩ := Option.ite_none_right_eq_some.mp sent
  simp only [copyToUser, accepted] at sent
  cases sent
  exact ⟨room, accepted, rfl, rfl, rfl, rfl⟩

theorem checkLoop_checked {fuel : Nat} (enough : t.waiting.card < fuel) :
    Checked t user tf (checkLoop user tf fuel t) := by
  induction fuel generalizing t with
  | zero => omega
  | succ fuel ih =>
    rw [checkLoop]
    split
    next quiet =>
      apply Checked.resumed
      · intro sig takes
        have wanted := takes.deliverable
        simp [quiet] at wanted
      · intro i pending
        rw [Thread.unsuspend] at pending
        split at pending
        · exact pending
        · exact pending
      · intro _
        rw [Thread.unsuspend, Thread.restoreMask]
        cases saved : t.savePending with
        | false => simp [saved]
        | true => simp
    next wanted =>
      split
      next absent =>
        apply Checked.resumed
        · intro sig takes
          have present := takes.deliverable
          rw [lowest_none absent takes.real] at present
          cases present
        · exact fun _ pending => pending
        · intro top
          refine absurd (eq_zero (fun sig real => lowest_none absent real) ?_) wanted
          simp only [Thread.deliverable, BitVec.getLsbD_or, BitVec.getLsbD_and, top, Bool.false_and, Bool.or_false]
      next sig found =>
        obtain ⟨real, present⟩ := lowest_some found
        have fewer := waiting_consume real (has_deliverable present)
        have rest := ih (t := t.consume sig) (by omega)
        dsimp only
        rw [consume_handler]
        by_cases dfl : t.handler sig = sigDfl
        · rw [if_pos dfl]
          by_cases fatal : has sigFatalMask sig = true
          · rw [if_pos fatal]
            exact .exited ⟨real, present, by rw [dfl]; decide, fun _ => fatal⟩
          · rw [if_neg fatal]
            exact rest.of_consume real fun acts => fatal (acts.2 dfl)
        · rw [if_neg dfl]
          by_cases ign : t.handler sig = sigIgn
          · rw [if_pos ign]
            exact rest.of_consume real fun acts => acts.1 ign
          · rw [if_neg ign]
            have takes : t.Takes sig := ⟨real, present, ign, fun default => absurd default dfl⟩
            obtain ⟨table, actions, handler⟩ := handler_caught dfl
            cases sent : sendsig (t.consume sig) user tf sig (t.handler sig) with
            | none => exact .exited takes
            | some result =>
              obtain ⟨room, accepted, pending, saved, stored, entered⟩ := sendsig_some sent
              rw [handler] at dfl ign entered
              simp only [stored, entered]
              apply Checked.handling takes actions dfl ign
              · intro i waits
                have waited := caught_below i waits
                rw [pending] at waited
                exact consume_below i waited
              · rw [caught_savePending, saved]
              · exact room
              · exact accepted

theorem checkSignals_checked (t : Thread) (user : UserSpace) (tf : TrapFrame) :
    Checked t user tf (checkSignals t user tf) :=
  checkLoop_checked waiting_card

end Checked

end Kappara.Signal
