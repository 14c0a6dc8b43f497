import Kappara.Kernel.Fault
import Kappara.Lib.Run

/-! Handlers and what they come back to (uts/os/proc/signal.c).

A thread runs from trap to trap. Each trap is one of a system call, a fault or the
sigreturn of the innermost handler; in between, user code may change its registers
and its memory as it likes and other threads may post signals. The deliveries that are
not yet undone are kept beside the state, with the registers and the mask each of them
interrupted. Handlers are taken to leave the open signal frames alone: neither they nor
the calls they make write there, and the stack pointer they trap with leaves room for
one more frame beside them. -/

set_option autoImplicit false

namespace Kappara.Signal

open ByteMemory Uaccess

section Calls

section

variable (t : Thread) (user : UserSpace)

def kthreadSignal (sig : Signo) : Thread :=
  if sig = 0 then t else { t with pending := t.pending ||| sigbit sig }

def loadWord (bytes : List Byte) (off n w : Nat) : BitVec w := BitVec.ofNat w (field bytes off n)

inductive How where
  | block
  | unblock
  | setmask
  | unknown
  deriving DecidableEq

def How.apply (old set : BitVec 32) : How → Option (BitVec 32)
  | .block => some (old ||| set)
  | .unblock => some (old &&& ~~~set)
  | .setmask => some set
  | .unknown => none

-- A pointer that may be null; the copy is made where it is not.
def copyOut (udst n : Addr) (src : Nat → Byte) : Bool × UserSpace :=
  if udst = 0 then (true, user) else copyToUser user udst n src

def sysSigprocmaskImpl (how : How) (uset uoldset : Addr) : BitVec 64 × Thread × UserSpace :=
  match copyOut user uoldset 4 (byteOf t.sigMask.toNat) with
  | (false, user) => (-1, t, user)
  | (true, user) =>
    if uset = 0 then (0, t, user)
    else
      match copyFromUser user uset 4 with
      | (none, user) => (-1, t, user)
      | (some bytes, user) =>
        match how.apply t.sigMask (loadWord bytes 0 4 32 &&& ~~~sigbit sigkill) with
        | none => (-1, t, user)
        | some mask => (0, { t with sigMask := mask }, user)

def Sigaction.ofBytes (bytes : List Byte) : Sigaction :=
  ⟨loadWord bytes 0 8 64, loadWord bytes 8 4 32, loadWord bytes 12 4 32⟩

def Sigaction.byte (action : Sigaction) (k : Nat) : Byte :=
  if k < 8 then byteOf action.handler.toNat k
  else if k < 12 then byteOf action.mask.toNat (k - 8)
  else byteOf action.flags.toNat (k - 12)

-- The table is allocated on first use, all dispositions SIG_DFL.
def Thread.table (t : Thread) (alloc : Bool) : Option Actions :=
  match t.actions with
  | some table => some table
  | none => if alloc then some fun _ => ⟨0, 0, 0⟩ else none

def sysSigactionImpl (alloc : Bool) (sig : BitVec 32) (uact uoldact : Addr) :
    BitVec 64 × Thread × UserSpace :=
  if sig.toInt ≤ 0 ∨ 32 ≤ sig.toInt ∨ sig.toInt = 9 then (-1, t, user)
  else
    match t.table alloc with
    | none => (-1, t, user)
    | some table =>
      let signo : Signo := Fin.ofNat 32 sig.toNat
      if uact = 0 then
        match copyOut user uoldact 16 (table signo).byte with
        | (copied, user) => (if copied then 0 else -1, { t with actions := some table }, user)
      else
        match copyFromUser user uact 16 with
        | (none, user) => (-1, { t with actions := some table }, user)
        | (some bytes, user) =>
          match copyOut user uoldact 16 (table signo).byte with
          | (copied, user) =>
            (if copied then 0 else -1, { t with actions := some (Function.update table signo (.ofBytes bytes)) }, user)

-- The signals posted while the thread sleeps; it stays asleep as long as none of them is deliverable.
def sysSigsuspendImpl (mask : BitVec 32) (arrived : List Signo) :
    Option (BitVec 64 × Thread × UserSpace) :=
  let t' := arrived.foldl kthreadSignal
    { t with savedMask := t.sigMask, savePending := true, sigMask := mask &&& ~~~sigbit sigkill }
  if t'.pending &&& ~~~t'.sigMask = 0 then none else some (-1, t', user)

end

/-- The system calls on the signal state, and any other that comes back. -/
inductive Call where
  | sigprocmask (how : How) (uset uoldset : Addr)
  | sigaction (alloc : Bool) (sig : BitVec 32) (uact uoldact : Addr)
  | sigsuspend (mask : BitVec 32) (arrived : List Signo)
  | other (result : BitVec 64) (mem : Memory 64)

def Call.dispatch (call : Call) : Dispatch := fun t user _ =>
  match call with
  | .sigprocmask how uset uoldset => some (sysSigprocmaskImpl t user how uset uoldset)
  | .sigaction alloc sig uact uoldact => some (sysSigactionImpl t user alloc sig uact uoldact)
  | .sigsuspend mask arrived => sysSigsuspendImpl t user mask arrived
  | .other result mem => some (result, t, { user with mem })

end Calls

section Runs

/-- A delivery that is not undone yet: its frame, and what it interrupted. -/
structure Interrupted where
  base : Addr
  sig : Signo
  tf : TrapFrame
  mask : BitVec 32

/-- The deliveries are innermost first. -/
structure State where
  thread : Thread
  user : UserSpace
  handlers : List Interrupted

inductive Event where
  | run (mem : Memory 64)
  | post (sig : Signo)
  | svc (tf : TrapFrame) (call : Call)
  | fault (tf : TrapFrame)
  | sigreturn (tf : TrapFrame)

-- The mask a delivery interrupts: out of sigsuspend, the one in force before it.
def Call.inForce (call : Call) (before after : Thread) : BitVec 32 :=
  match call with
  | .sigsuspend _ _ => before.sigMask
  | _ => after.sigMask

variable (s : State)

def State.land (tf : TrapFrame) (mask : BitVec 32) : Trap → Option State
  | .back (.resumed t user _) => some { s with thread := t, user }
  | .back (.handling sig t user tf') => some ⟨t, user, ⟨tf'.spEl0, sig, tf, mask⟩ :: s.handlers⟩
  | _ => none

def step : Event → Option State
  | .run mem => some { s with user := { s.user with mem } }
  | .post sig => some { s with thread := kthreadSignal s.thread sig }
  | .svc tf call =>
    if exceptionClass tf = 0x15 ∧ tf.x 8 ≠ sysSigreturn then
      match call.dispatch s.thread s.user tf with
      | none => none
      | some (result, t, _) =>
        s.land { tf with x := Function.update tf.x 0 result } (call.inForce s.thread t)
          (trapDispatch call.dispatch vecSyncLo64 s.thread s.user tf)
    else none
  | .fault tf =>
    if exceptionClass tf = 0x15 then none
    else s.land tf s.thread.sigMask (trapDispatch noDispatch vecSyncLo64 s.thread s.user tf)
  | .sigreturn tf =>
    match s.handlers with
    | [] => none
    | d :: rest =>
      if exceptionClass tf = 0x15 ∧ tf.x 8 = sysSigreturn ∧ tf.spEl0 = d.base then
        State.land { s with handlers := rest } tf s.thread.sigMask
          (trapDispatch noDispatch vecSyncLo64 s.thread s.user tf)
      else none

def State.Keeps (mem : Memory 64) : Prop :=
  ∀ d ∈ s.handlers, ∀ k < 288, mem (d.base + BitVec.ofNat 64 k) = s.user.mem (d.base + BitVec.ofNat 64 k)

def State.Apart (sp : Addr) : Prop :=
  ∀ d ∈ s.handlers, ∀ k < 288, 288 ≤ (d.base + BitVec.ofNat 64 k - sp).toNat

instance (s : State) (mem : Memory 64) : Decidable (s.Keeps mem) := inferInstanceAs (Decidable (∀ d ∈ s.handlers, _))

instance (s : State) (sp : Addr) : Decidable (s.Apart sp) := inferInstanceAs (Decidable (∀ d ∈ s.handlers, _))

/-- What handlers are taken to leave alone. -/
def leaves : Event → Prop
  | .run mem => s.Keeps mem
  | .svc tf call => s.Apart (framePtr tf.spEl0) ∧ ∀ back ∈ call.dispatch s.thread s.user tf, s.Keeps back.2.2.mem
  | .fault tf => s.Apart (framePtr tf.spEl0)
  | .post _ | .sigreturn _ => True

instance (s : State) : (event : Event) → Decidable (leaves s event)
  | .run mem => inferInstanceAs (Decidable (s.Keeps mem))
  | .svc tf call => inferInstanceAs (Decidable (_ ∧ ∀ back ∈ call.dispatch s.thread s.user tf, s.Keeps back.2.2.mem))
  | .fault tf => inferInstanceAs (Decidable (s.Apart (framePtr tf.spEl0)))
  | .post _ | .sigreturn _ => .isTrue trivial

def Fresh : Prop :=
  s.handlers = [] ∧ s.thread.savePending = false ∧ s.thread.pending.getLsbD 31 = false

end Runs

variable {k : Nat} {result : BitVec 64}

section Frames

variable {mem : Memory 64} {base : Addr} {fr : Sigframe}

def Holds (mem : Memory 64) (base : Addr) (fr : Sigframe) : Prop :=
  ∀ k < 288, mem (base + BitVec.ofNat 64 k) = fr.byte k

theorem Holds.word (holds : Holds mem base fr) {off n value : Nat} (inside : off + n ≤ 288)
    (bytes : ∀ k < n, fr.byte (off + k) = byteOf value k) (small : value < 256 ^ n) :
    field (loadBytes mem base 288) off n = value := by
  have held : ∀ k < n, mem (base + BitVec.ofNat 64 off + BitVec.ofNat 64 k) = byteOf value k := by
    intro k below
    rw [BitVec.add_assoc, ← BitVec.ofNat_add, holds _ (by omega), bytes k below]
  rw [field_loadBytes _ _ _ _ _ inside, ofLe_loadBytes held]
  exact Nat.mod_eq_of_lt small

theorem byte_mask (inside : k < 4) : fr.byte (12 + k) = byteOf fr.savedMask.toNat k := by
  simp (disch := omega) only [Sigframe.byte, if_pos, if_neg, Nat.add_sub_cancel_left]

theorem byte_x (i : Fin 31) (inside : k < 8) : fr.byte (16 + 8 * i + k) = byteOf (fr.savedX i).toNat k := by
  have index : (16 + 8 * i.val + k - 16) / 8 = i := by omega
  have offset : (16 + 8 * i.val + k - 16) % 8 = k := by omega
  simp (disch := omega) only [Sigframe.byte, if_pos, if_neg, index, offset]
  simp

theorem byte_sp (inside : k < 8) : fr.byte (264 + k) = byteOf fr.savedSpEl0.toNat k := by
  simp (disch := omega) only [Sigframe.byte, if_pos, if_neg, Nat.add_sub_cancel_left]

theorem byte_elr (inside : k < 8) : fr.byte (272 + k) = byteOf fr.savedElr.toNat k := by
  simp (disch := omega) only [Sigframe.byte, if_pos, if_neg, Nat.add_sub_cancel_left]

theorem byte_spsr : fr.byte (280 + k) = byteOf fr.savedSpsr.toNat k := by
  simp (disch := omega) only [Sigframe.byte, if_neg, Nat.add_sub_cancel_left]

theorem Holds.restore (holds : Holds mem base fr) (tf : TrapFrame) :
    restore (.ofBytes (loadBytes mem base 288)) tf = restore fr tf ∧
      (Sigframe.ofBytes (loadBytes mem base 288)).savedMask = fr.savedMask := by
  have mask := holds.word (by decide) (fun k => byte_mask) fr.savedMask.isLt
  have x : ∀ i : Fin 31, field (loadBytes mem base 288) (16 + 8 * i) 8 = (fr.savedX i).toNat := fun i =>
    holds.word (by omega) (fun k => byte_x i) (fr.savedX i).isLt
  have sp := holds.word (by decide) (fun k => byte_sp) fr.savedSpEl0.isLt
  have elr := holds.word (by decide) (fun k => byte_elr) fr.savedElr.isLt
  have spsr : field (loadBytes mem base 288) 280 8 = _ :=
    holds.word (by decide) (fun k _ => byte_spsr) fr.savedSpsr.isLt
  constructor
  · simp [Signal.restore, Sigframe.ofBytes, savedSpsrOffset, x, sp, elr, spsr]
  · simp [Sigframe.ofBytes, mask]

end Frames

section Sound

variable {s s' : State} {t t' : Thread} {user user' : UserSpace} {tf tf' : TrapFrame} {d : Interrupted} {sig : Signo}

/-- The open frames are on the user stack, and no mask of a sigsuspend is left over. -/
structure Sound (s : State) : Prop where
  saved : s.thread.savePending = false
  top : s.thread.pending.getLsbD 31 = false
  accepted : ∀ d ∈ s.handlers, userPtrOk d.base sigframeSize = true
  holds : ∀ d ∈ s.handlers, Holds s.user.mem d.base (sigframe d.tf d.sig d.mask)

theorem kthreadSignal_fields (t : Thread) (sig : Signo) : (kthreadSignal t sig).toKthread = t.toKthread ∧
    (kthreadSignal t sig).savePending = t.savePending ∧ (kthreadSignal t sig).savedMask = t.savedMask ∧
      (kthreadSignal t sig).pending.getLsbD 31 = t.pending.getLsbD 31 := by
  rw [kthreadSignal]
  split
  · exact ⟨rfl, rfl, rfl, rfl⟩
  · refine ⟨rfl, rfl, rfl, ?_⟩
    have low : (sigbit sig).getLsbD 31 = false := by
      revert sig
      decide
    simp only [BitVec.getLsbD_or, low, Bool.or_false]

theorem arrived_fields (arrived : List Signo) (t : Thread) : (arrived.foldl kthreadSignal t).toKthread = t.toKthread ∧
    (arrived.foldl kthreadSignal t).savePending = t.savePending ∧
    (arrived.foldl kthreadSignal t).savedMask = t.savedMask ∧
      (arrived.foldl kthreadSignal t).pending.getLsbD 31 = t.pending.getLsbD 31 := by
  induction arrived generalizing t with
  | nil => exact ⟨rfl, rfl, rfl, rfl⟩
  | cons sig rest ih =>
    obtain ⟨mask, saved, old, top⟩ := ih (kthreadSignal t sig)
    obtain ⟨mask', saved', old', top'⟩ := kthreadSignal_fields t sig
    exact ⟨mask.trans mask', saved.trans saved', old.trans old', top.trans top'⟩

section

variable (saved : t.savePending = false)
include saved

theorem restoreMask_of_saved : t.restoreMask = t.sigMask := by
  simp [Thread.restoreMask, saved]

structure Called (call : Call) (before after : Thread) : Prop where
  mask : after.restoreMask = call.inForce before after
  top : after.pending.getLsbD 31 = before.pending.getLsbD 31

theorem sigprocmask_called (user : UserSpace) (how : How) (uset uoldset : Addr) :
    (sysSigprocmaskImpl t user how uset uoldset).2.1.savePending = false ∧
      (sysSigprocmaskImpl t user how uset uoldset).2.1.pending = t.pending := by
  rw [sysSigprocmaskImpl]
  split
  · exact ⟨saved, rfl⟩
  · split
    · exact ⟨saved, rfl⟩
    · split
      · exact ⟨saved, rfl⟩
      · split
        · exact ⟨saved, rfl⟩
        · exact ⟨saved, rfl⟩

theorem sigaction_called (user : UserSpace) (alloc : Bool) (sig : BitVec 32) (uact uoldact : Addr) :
    (sysSigactionImpl t user alloc sig uact uoldact).2.1.savePending = false ∧
      (sysSigactionImpl t user alloc sig uact uoldact).2.1.pending = t.pending := by
  rw [sysSigactionImpl]
  split
  · exact ⟨saved, rfl⟩
  · split
    · exact ⟨saved, rfl⟩
    · split
      · exact ⟨saved, rfl⟩
      · split
        · exact ⟨saved, rfl⟩
        · exact ⟨saved, rfl⟩

theorem dispatch_called {call : Call} (came : call.dispatch t user tf = some (result, t', user')) :
    Called call t t' := by
  cases call with
  | sigprocmask how uset uoldset =>
    have kept := sigprocmask_called saved user how uset uoldset
    rw [Option.some.inj came] at kept
    exact ⟨restoreMask_of_saved kept.1, congrArg (·.getLsbD 31) kept.2⟩
  | sigaction alloc sig uact uoldact =>
    have kept := sigaction_called saved user alloc sig uact uoldact
    rw [Option.some.inj came] at kept
    exact ⟨restoreMask_of_saved kept.1, congrArg (·.getLsbD 31) kept.2⟩
  | sigsuspend mask arrived =>
    simp only [Call.dispatch, sysSigsuspendImpl] at came
    split at came
    · cases came
    · cases came
      obtain ⟨_, kept, old, top⟩ := arrived_fields arrived
        { t with savedMask := t.sigMask, savePending := true, sigMask := mask &&& ~~~sigbit sigkill }
      exact ⟨by simp [Thread.restoreMask, kept, old, Call.inForce], top⟩
  | other result mem =>
    cases came
    exact ⟨restoreMask_of_saved saved, rfl⟩

end

theorem Sound.keep {mem : Memory 64} (sound : Sound s) (keeps : s.Keeps mem) (member : d ∈ s.handlers) :
    Holds mem d.base (sigframe d.tf d.sig d.mask) := by
  intro k inside
  rw [keeps d member k inside]
  exact sound.holds d member k inside

/-- A trap that checks for signals keeps the invariant: a new frame lies beside the open ones. -/
theorem Sound.land {mask : BitVec 32} (sound : Sound s)
    (landed : s.land tf mask (.back (checkSignals t user tf)) = some s')
    (back : t.restoreMask = mask) (top : t.pending.getLsbD 31 = false) (keeps : s.Keeps user.mem)
    (apart : s.Apart (framePtr tf.spEl0)) : Sound s' := by
  have checked := checkSignals_checked t user tf
  generalize checkSignals t user tf = out at checked landed
  cases checked with
  | exited => cases landed
  | resumed _ below settled =>
    cases landed
    obtain ⟨_, saved⟩ := settled top
    refine ⟨saved, ?_, sound.accepted, fun d member => sound.keep keeps member⟩
    exact Bool.eq_false_iff.mpr fun set => Bool.eq_false_iff.mp top (below _ set)
  | handling _ _ _ _ below saved room accepted =>
    cases landed
    refine ⟨saved, ?_, ?_, ?_⟩
    · exact Bool.eq_false_iff.mpr fun set => Bool.eq_false_iff.mp top (below _ set)
    · simp only [List.forall_mem_cons]
      exact ⟨accepted, sound.accepted⟩
    · simp only [List.forall_mem_cons]
      constructor
      · intro k inside
        rw [← back]
        exact storeBytes_inside inside (by decide)
      · intro d member k inside
        rw [← sound.keep keeps member k inside]
        exact storeBytes_outside (apart d member k inside)

theorem trapDispatch_svc {dispatch : Dispatch} (svc : exceptionClass tf = 0x15)
    (number : tf.x 8 ≠ sysSigreturn) (came : dispatch t user tf = some (result, t', user')) :
    trapDispatch dispatch vecSyncLo64 t user tf =
      .back (checkSignals t' user' { tf with x := Function.update tf.x 0 result }) := by
  rw [trapDispatch, if_neg (by decide), if_pos svc, if_neg number]
  simp [came]

theorem trapDispatch_sigreturn (dispatch : Dispatch) (svc : exceptionClass tf = 0x15) (number : tf.x 8 = sysSigreturn)
    (accepted : userPtrOk tf.spEl0 sigframeSize = true) {fr : Sigframe} (holds : Holds user.mem tf.spEl0 fr) :
    ∃ log, trapDispatch dispatch vecSyncLo64 t user tf =
      .back (.resumed { t with sigMask := fr.savedMask } ⟨user.mem, log⟩ (restore fr tf)) := by
  obtain ⟨frame, mask⟩ := holds.restore tf
  have first : ∀ tf : TrapFrame, (fun i => if i = 0 then tf.x 0 else tf.x i) = tf.x := by
    intro tf
    funext i
    split
    next zero => rw [zero]
    · rfl
  refine ⟨user.log ++ [⟨false, tf.spEl0, 288, none⟩], ?_⟩
  rw [trapDispatch, if_neg (by decide), if_pos svc, if_pos number]
  simp only [trapSigreturn, sysSigreturnImpl, copyFromUser, accepted, if_true, UserSpace.load, Option.getD_some]
  rw [show sigframeSize.toNat = 288 from rfl, frame, mask, first]

theorem step_sound (sound : Sound s) {event : Event} (left : leaves s event) (made : step s event = some s') :
    Sound s' := by
  cases event with
  | run mem =>
    cases made
    exact ⟨sound.saved, sound.top, sound.accepted, fun d member => sound.keep left member⟩
  | post sig =>
    cases made
    obtain ⟨_, saved, _, top⟩ := kthreadSignal_fields s.thread sig
    exact ⟨saved.trans sound.saved, top.trans sound.top, sound.accepted, sound.holds⟩
  | svc tf call =>
    obtain ⟨svc, made⟩ := Option.ite_none_right_eq_some.mp made
    split at made
    · cases made
    next result t user came =>
      rw [trapDispatch_svc svc.1 svc.2 came] at made
      have called := dispatch_called sound.saved came
      exact sound.land made called.mask (called.top.trans sound.top) (left.2 _ came) left.1
  | fault tf =>
    obtain ⟨fault, made⟩ := Option.ite_none_left_eq_some.mp made
    rw [trapDispatch_fault fault] at made
    refine sound.land made (restoreMask_of_saved sound.saved) ?_ (fun _ _ _ _ => rfl) left
    have low : (sigbit sigsegv).getLsbD 31 = false := by decide
    simp only [Thread.fault, BitVec.getLsbD_or, sound.top, low, Bool.or_false]
  | sigreturn tf =>
    rw [step] at made
    split at made
    · cases made
    next d rest handlers =>
      obtain ⟨back, made⟩ := Option.ite_none_right_eq_some.mp made
      obtain ⟨svc, number, sp⟩ := back
      have inner : d ∈ s.handlers := by simp [handlers]
      have outer : ∀ d' ∈ rest, d' ∈ s.handlers := fun d' member => by simp [handlers, member]
      obtain ⟨log, trap⟩ := trapDispatch_sigreturn noDispatch svc number (sp ▸ sound.accepted d inner)
        (sp ▸ sound.holds d inner)
      rw [trap] at made
      cases made
      exact ⟨sound.saved, sound.top, fun d' member => sound.accepted d' (outer d' member),
        fun d' member => sound.holds d' (outer d' member)⟩

theorem reach_sound (reached : Run.Reach step leaves Fresh s) : Sound s := by
  apply reached.invariant
  · intro s fresh
    exact ⟨fresh.2.1, fresh.2.2, by simp [fresh.1], by simp [fresh.1]⟩
  · exact fun _ _ _ sound left made => step_sound sound left made

/-- The sigreturn of the innermost handler brings back what its delivery interrupted. -/
theorem sigreturn_restores {rest : List Interrupted} (dispatch : Dispatch) (reached : Run.Reach step leaves Fresh s)
    (inner : s.handlers = d :: rest) (svc : exceptionClass tf = 0x15) (number : tf.x 8 = sysSigreturn)
    (sp : tf.spEl0 = d.base) :
    ∃ t user tf', trapDispatch dispatch vecSyncLo64 s.thread s.user tf = .back (.resumed t user tf') ∧ tf'.x = d.tf.x ∧
      tf'.spEl0 = d.tf.spEl0 ∧ tf'.elr = d.tf.elr ∧ tf'.spsr = d.tf.spsr ∧ t.sigMask = d.mask := by
  have sound := reach_sound reached
  have member : d ∈ s.handlers := by simp [inner]
  obtain ⟨log, trap⟩ := trapDispatch_sigreturn dispatch svc number (sp ▸ sound.accepted d member)
    (sp ▸ sound.holds d member)
  exact ⟨_, _, _, trap, rfl, rfl, rfl, rfl, rfl⟩

-- A system call with the given number from a stack pointer.
def svcFrame (number sp elr : BitVec 64) : TrapFrame :=
  ⟨fun i => if i = 8 then number else 0, sp, elr, 0, 0x54000000, 0⟩

-- Signal 3 blocked, every signal caught.
def catching : State := ⟨faulting (sigbit 3) 0x10000400, ⟨fun _ => 0, []⟩, []⟩

-- A sigsuspend that signal 3 ends, and in its handler a call that signal 1 interrupts and returns to.
def suspended : List Event :=
  [.svc (svcFrame 25 0x10100000 0x10000010) (.sigsuspend 0 [3]), .post 1,
    .svc (svcFrame 24 0x100ffee0 0x10000404) (.sigprocmask .block 0 0x10000800),
    .sigreturn (svcFrame 23 0x100ffdc0 0)]

/-- The outer handler goes back to the call with the mask from before the sigsuspend. -/
theorem sigreturn_restores_suspended : ∃ s d, Run.Reach step leaves Fresh s ∧ s.handlers = [d] ∧
    ∃ t user tf', trapDispatch noDispatch vecSyncLo64 s.thread s.user (svcFrame 23 0x100ffee0 0) =
      .back (.resumed t user tf') ∧ tf'.elr = 0x10000010 ∧ t.sigMask = sigbit 3 := by
  have start : Fresh catching := ⟨rfl, rfl, rfl⟩
  obtain ⟨s, reached, one, facts⟩ : ∃ s, Run.Reach step leaves Fresh s ∧ s.handlers.length = 1 ∧
      ∀ d ∈ s.handlers, d.base = 0x100ffee0 ∧ d.tf.elr = 0x10000010 ∧ d.mask = sigbit 3 :=
    Run.Reach.found suspended start (by decide +kernel)
  obtain ⟨d, inner⟩ := List.length_eq_one_iff.mp one
  obtain ⟨base, elr, mask⟩ := facts d (by simp [inner])
  have svc : exceptionClass (svcFrame 23 0x100ffee0 0) = 0x15 := by decide
  obtain ⟨t, user, tf', trap, _, _, back, _, restored⟩ :=
    sigreturn_restores noDispatch reached inner svc rfl base.symm
  exact ⟨s, d, reached, inner, t, user, tf', trap, back.trans elr, restored.trans mask⟩

end Sound

end Kappara.Signal
