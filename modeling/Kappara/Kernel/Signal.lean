import Kappara.Kernel.Uaccess

/-! Return from a signal handler (uts/os/proc/signal.c, uts/aarch64/trap.c).

The frame sigreturn restores lies on the user stack, where the thread can write
whatever it likes before it traps. The model reads the frame byte by byte out
of user memory, at the offsets of struct sigframe. -/

set_option autoImplicit false

namespace Kappara.Signal

open ByteMemory Uaccess

/-- The AArch64 trap frame; the exception return loads the processor from it. -/
structure TrapFrame where
  x : Fin 31 → BitVec 64
  spEl0 : BitVec 64
  elr : BitVec 64
  spsr : BitVec 64
  esr : BitVec 64
  far : BitVec 64

structure Kthread where
  sigMask : BitVec 32
  deriving DecidableEq

/-- M[3:0] of a saved program status; zero selects EL0. -/
def modeBits (spsr : BitVec 64) : BitVec 64 := spsr &&& 0xf

def TrapFrame.atEl0 (tf : TrapFrame) : Prop := modeBits tf.spsr = 0

instance (tf : TrapFrame) : Decidable tf.atEl0 := inferInstanceAs (Decidable (_ = _))

structure Sigframe where
  trampoline : Fin 2 → BitVec 32
  signo : BitVec 32
  savedMask : BitVec 32
  savedX : Fin 31 → BitVec 64
  savedSpEl0 : BitVec 64
  savedElr : BitVec 64
  savedSpsr : BitVec 64

/-- sizeof(struct sigframe) -/
def sigframeSize : BitVec 64 := 288

def savedSpsrOffset : Nat := 280

def Sigframe.ofBytes (bytes : List Byte) : Sigframe where
  trampoline i := BitVec.ofNat 32 (field bytes (4 * i) 4)
  signo := BitVec.ofNat 32 (field bytes 8 4)
  savedMask := BitVec.ofNat 32 (field bytes 12 4)
  savedX i := BitVec.ofNat 64 (field bytes (16 + 8 * i) 8)
  savedSpEl0 := BitVec.ofNat 64 (field bytes 264 8)
  savedElr := BitVec.ofNat 64 (field bytes 272 8)
  savedSpsr := BitVec.ofNat 64 (field bytes savedSpsrOffset 8)

structure Sigreturn where
  result : BitVec 64
  thread : Option Kthread
  frame : TrapFrame
  user : UserSpace

def restore (fr : Sigframe) (tf : TrapFrame) : TrapFrame :=
  { tf with x := fr.savedX, spEl0 := fr.savedSpEl0, elr := fr.savedElr, spsr := fr.savedSpsr }

def sysSigreturnImpl (curthread : Option Kthread) (user : UserSpace) (tf : TrapFrame) : Sigreturn :=
  match curthread with
  | none => ⟨-1, none, tf, user⟩
  | some t =>
    if userPtrOk tf.spEl0 sigframeSize then
      match copyFromUser user tf.spEl0 sigframeSize with
      | (none, user) => ⟨-1, some t, tf, user⟩
      | (some bytes, user) =>
        let fr := Sigframe.ofBytes bytes
        let tf := restore fr tf
        ⟨tf.x 0, some { t with sigMask := fr.savedMask }, tf, user⟩
    else ⟨-1, some t, tf, user⟩

/-- SYS_sigreturn in the SVC path of trap_dispatch: the result goes to x0 and pending signals
are not looked at. -/
def trapSigreturn (curthread : Option Kthread) (user : UserSpace) (tf : TrapFrame) : Sigreturn :=
  let ret := sysSigreturnImpl curthread user tf
  { ret with frame := { ret.frame with x := fun i => if i = 0 then ret.result else ret.frame.x i } }

def savedSpsrAt (mem : Memory 64) (sp : Addr) : BitVec 64 :=
  BitVec.ofNat 64 (ofLe (loadBytes mem (sp + BitVec.ofNat 64 savedSpsrOffset) 8))

section

variable (curthread : Option Kthread) (user : UserSpace) (tf : TrapFrame)

theorem savedSpsr_eq : (Sigframe.ofBytes (loadBytes user.mem tf.spEl0 288)).savedSpsr =
    savedSpsrAt user.mem tf.spEl0 := by
  simp only [Sigframe.ofBytes, savedSpsrAt]
  rw [field_loadBytes _ _ _ _ _ (by decide)]

theorem trapSigreturn_spsr :
    (trapSigreturn curthread user tf).frame.spsr = (sysSigreturnImpl curthread user tf).frame.spsr := rfl

/-- The status word sigreturn installs: the user's own, wherever the frame pointer is accepted. -/
theorem sysSigreturnImpl_spsr (t : Kthread) : (sysSigreturnImpl (some t) user tf).frame.spsr =
      if userPtrOk tf.spEl0 sigframeSize then savedSpsrAt user.mem tf.spEl0 else tf.spsr := by
  by_cases accepted : userPtrOk tf.spEl0 sigframeSize = true
  · simp only [sysSigreturnImpl, copyFromUser, accepted]
    exact savedSpsr_eq user tf
  · simp [sysSigreturnImpl, accepted]

-- The kernel installs the word unfiltered, so the level is kept exactly when the user's word keeps it.
theorem sigreturn_keeps_el0_iff (t : Kthread) (el0 : tf.atEl0) : (sysSigreturnImpl (some t) user tf).frame.atEl0 ↔
      (userPtrOk tf.spEl0 sigframeSize = true → modeBits (savedSpsrAt user.mem tf.spEl0) = 0) := by
  simp only [TrapFrame.atEl0, sysSigreturnImpl_spsr] at el0 ⊢
  by_cases accepted : userPtrOk tf.spEl0 sigframeSize = true
  · simp [accepted]
  · simp [accepted, el0]

end

def plainFrame : TrapFrame := ⟨fun _ => 0, 0x10000000, 0x10000000, 0, 0, 0⟩

def forgedFrame : UserSpace := ⟨fun a => if a = 0x10000118 then 5 else 0, []⟩

theorem sigreturn_keeps_el0_zeroed :
    plainFrame.atEl0 ∧ (sysSigreturnImpl (some ⟨0⟩) ⟨fun _ => 0, []⟩ plainFrame).frame.atEl0 :=
  ⟨by decide, (sigreturn_keeps_el0_iff ⟨fun _ => 0, []⟩ plainFrame ⟨0⟩ (by decide)).mpr (fun _ => by decide)⟩

/-- The forged word reaches the exception return: the thread resumes at EL1h. -/
theorem sigreturn_forged_el1 :
    plainFrame.atEl0 ∧ modeBits (sysSigreturnImpl (some ⟨0⟩) forgedFrame plainFrame).frame.spsr = 5 ∧
      modeBits (trapSigreturn (some ⟨0⟩) forgedFrame plainFrame).frame.spsr = 5 := by
  rw [trapSigreturn_spsr, sysSigreturnImpl_spsr]
  decide

end Kappara.Signal
