import Kappara.Kernel.StreamHead

/-! Which user addresses the message system calls touch.

For each operation one lemma says when its accesses are all allowed, as a
condition on the memory it starts from; the calls are composed from these. The
checked entry points (read, write, ioctl) need a condition only where they take the
caller for the kernel, the unchecked ones (putmsg, getmsg) need exactly that the
caller's own structures are sound. -/

set_option autoImplicit false

namespace Kappara.StreamHead

open ByteMemory Uaccess
open BitVec (add_assoc ofNat ofNat_add)

def Allowed (access : Access) : Prop :=
  BytesOk access.addr access.len ∧ ∀ room ∈ access.limit, access.len ≤ room

def AllAllowed (u : UserSpace) : Prop := ∀ access ∈ u.log, Allowed access

def intAt (mem : Memory 64) (a : Addr) : Int := (ofNat 32 (ofLe (loadBytes mem a 4))).toInt

def ptrAt (mem : Memory 64) (a : Addr) : Addr := ofNat 64 (ofLe (loadBytes mem a 8))

section Primitives

variable (u : UserSpace) (a : Addr)

theorem allAllowed_load (n : Nat) : AllAllowed (u.load a n).2 ↔ AllAllowed u ∧ BytesOk a n := by
  rw [UserSpace.load, AllAllowed, List.forall_mem_append]
  simp [AllAllowed, Allowed]

theorem allAllowed_store (n : Nat) (src : Nat → Byte) (limit : Option Nat) :
    AllAllowed (u.store a n src limit) ↔ AllAllowed u ∧ BytesOk a n ∧ ∀ room ∈ limit, n ≤ room := by
  rw [UserSpace.store, AllAllowed, List.forall_mem_append, List.forall_mem_singleton]
  rfl

theorem allAllowed_loadInt : AllAllowed (loadInt u a).2 ↔ AllAllowed u ∧ InWindow a 4 := by
  rw [loadInt, allAllowed_load, bytesOk_iff]
  simp

theorem allAllowed_loadPtr : AllAllowed (loadPtr u a).2 ↔ AllAllowed u ∧ InWindow a 8 := by
  rw [loadPtr, allAllowed_load, bytesOk_iff]
  simp

theorem allAllowed_storeInt (value : Int) : AllAllowed (storeInt u a value) ↔ AllAllowed u ∧ InWindow a 4 := by
  rw [storeInt, allAllowed_store, bytesOk_iff]
  simp

@[simp] theorem loadInt_mem : (loadInt u a).2.mem = u.mem := rfl

@[simp] theorem loadInt_value : (loadInt u a).1 = intAt u.mem a := rfl

@[simp] theorem loadPtr_value : (loadPtr u a).1 = ptrAt u.mem a := rfl

end Primitives

section Checked

theorem bytesOk_add (a : Addr) (n m : Nat) : BytesOk a (n + m) ↔ BytesOk a n ∧ BytesOk (a + ofNat 64 n) m := by
  constructor
  · refine fun all => ⟨fun i less => all i (by omega), fun i less => ?_⟩
    rw [add_assoc, ← ofNat_add]
    exact all (n + i) (by omega)
  · intro ⟨first, second⟩ i less
    by_cases low : i < n
    · exact first i low
    · have shifted := second (i - n) (by omega)
      rwa [add_assoc, ← ofNat_add, show n + (i - n) = i by omega] at shifted

/-- The next piece of a buffer, and what is left behind it. -/
theorem bytesOk_piece (buf : Addr) (done len n rest : Nat) :
    BytesOk (buf + ofNat 64 done) (min (n + rest) (len - done)) ↔
      BytesOk (buf + ofNat 64 done) (min n (len - done)) ∧
        BytesOk (buf + ofNat 64 (done + min n (len - done))) (min rest (len - (done + min n (len - done)))) := by
  have whole : min (n + rest) (len - done) = min n (len - done) + min rest (len - (done + min n (len - done))) := by
    omega
  rw [whole, bytesOk_add, add_assoc, ← ofNat_add]

/-- The pieces fill the buffer from its start, as far as it or they reach. -/
theorem allAllowed_copyOut (buf : Addr) (len : Nat) (pieces : List Block) (u : UserSpace) (copied : Nat) :
    AllAllowed (copyOut u buf len copied pieces) ↔ AllAllowed u ∧
      BytesOk (buf + ofNat 64 copied) (min (pieces.map (·.size)).sum (len - copied)) := by
  induction pieces generalizing u copied with
  | nil => simp [copyOut, BytesOk]
  | cons cur rest ih =>
    rw [copyOut]
    split
    next more =>
      rw [ih, allAllowed_store, List.map_cons, List.sum_cons, bytesOk_piece]
      simp [and_assoc]
    next full => simp [show len - copied = 0 by omega, BytesOk]

theorem allAllowed_copyIn (buf : Addr) (len : Nat) (rooms : List Nat) (u : UserSpace) (done : Nat) :
    AllAllowed (copyIn u buf len done rooms) ↔ AllAllowed u ∧
      BytesOk (buf + ofNat 64 done) (min rooms.sum (len - done)) := by
  induction rooms generalizing u done with
  | nil => simp [copyIn, BytesOk]
  | cons room rest ih =>
    rw [copyIn]
    split
    next more => rw [ih, allAllowed_load, List.sum_cons, bytesOk_piece, and_assoc]
    next full => simp [show len - done = 0 by omega, BytesOk]

theorem checked_range (buf len : Addr) (accepted : userPtrOk buf len = true) :
    len.toNat = 0 ∨ InWindow buf len.toNat := by
  by_cases zero : len = 0
  · exact .inl (by simp [zero])
  · exact .inr ((userPtrOk_iff buf len zero).mp accepted)

theorem checked_bytes (buf len : Addr) (accepted : userPtrOk buf len = true) : BytesOk buf len.toNat :=
  (bytesOk_iff _ _).mpr (checked_range buf len accepted)

end Checked

/-- Each byte of the name is checked before it is read. -/
theorem allAllowed_strncpyLoop (usrc : Addr) (left : Nat) (u : UserSpace) (i : Nat) :
    AllAllowed (strncpyLoop u usrc i left).2 ↔ AllAllowed u := by
  induction left generalizing u i with
  | zero => rfl
  | succ left ih =>
    by_cases accepted : userPtrOk (usrc + ofNat 64 i) 1 = true
    · have read : AllAllowed (u.load (usrc + ofNat 64 i) 1).2 ↔ AllAllowed u :=
        (allAllowed_load _ _ _).trans (and_iff_left (checked_bytes _ 1 accepted))
      rw [strncpyLoop, if_pos accepted]
      by_cases stop : u.mem (usrc + ofNat 64 i) = 0
      · rwa [if_pos stop]
      · rw [if_neg stop]
        exact (ih _ _).trans read
    · rw [strncpyLoop, if_neg accepted]

theorem allAllowed_loads (arg : Addr) (sizes : List Nat) (u : UserSpace) :
    AllAllowed (sizes.foldl (fun u n => (u.load arg n).2) u) ↔ AllAllowed u ∧ ∀ n ∈ sizes, BytesOk arg n := by
  induction sizes generalizing u with
  | nil => simp
  | cons n rest ih =>
    rw [List.foldl_cons, ih, allAllowed_load, and_assoc, List.forall_mem_cons]

section Ioctl

variable (user : FlagTest → Bool) (sd : Stream) (cmd : IoctlCmd) (arg : Addr)

/-- What the answer of a command needs where the copy is not checked. -/
def ReplyReady (payload : Nat) : Prop :=
  user .copyOut = false → strioctlCopiesOut cmd = true → ∀ block, sd.ioctlAck = some (some block) →
    BytesOk arg (min block.size payload)

theorem allAllowed_strioctlReply (payload : Nat) (u : UserSpace) :
    AllAllowed (strioctlReply user sd u cmd arg payload) ↔ AllAllowed u ∧ ReplyReady user sd cmd arg payload := by
  rw [strioctlReply]
  split
  next block ack =>
    have small : (ofNat 64 (min block.size payload)).toNat = min block.size payload := by
      have := block.small
      rw [BitVec.toNat_ofNat]
      omega
    cases flag : user .copyOut <;> cases out : strioctlCopiesOut cmd <;>
      simp [ReplyReady, ack, flag, out, allAllowed_store, copyToUser]
    split
    next accepted => simpa [allAllowed_store, small] using fun _ => small ▸ checked_bytes _ _ accepted
    · rfl
  next none => exact ⟨fun start => ⟨start, fun _ _ block ack => (none block ack).elim⟩, And.left⟩

/-- What a command needs: the name, the payload it reads and the answer it stores, where they are not checked. -/
def IoctlReady (mem : Memory 64) : Prop :=
  (cmd = .iPush → user .entry = false → ∀ n ∈ compared mem arg sd.registry, BytesOk arg n) ∧
    ∀ payload, strioctlPayloadSize cmd = some payload → sd.takesIoctl payload = true →
      (fetches cmd payload = true → user .copyIn = false → BytesOk arg payload) ∧
      ((fetches cmd payload = true → user .copyIn = true → userPtrOk arg (ofNat 64 payload) = true) →
        ReplyReady user sd cmd arg payload)

theorem allAllowed_strioctl (u : UserSpace) (other : cmd ≠ .iPush) :
    AllAllowed (strioctl user sd u cmd arg) ↔ AllAllowed u ∧ IoctlReady user sd cmd arg u.mem := by
  rw [strioctl, IoctlReady]
  cases strioctlPayloadSize cmd with
  | none => simp [other]
  | some payload =>
    cases takes : sd.takesIoctl payload with
    | false => simp [other, takes]
    | true =>
      cases fetch : fetches cmd payload with
      | false => simp [other, takes, fetch, allAllowed_strioctlReply]
      | true =>
        cases user .copyIn with
        | false => simp [other, takes, fetch, allAllowed_strioctlReply, allAllowed_load, and_assoc]
        | true =>
          by_cases accepted : userPtrOk arg (ofNat 64 payload) = true
          · have bytes := checked_bytes _ _ accepted
            rw [BitVec.toNat_ofNat] at bytes
            simp [other, takes, fetch, accepted, copyFromUser, allAllowed_strioctlReply, allAllowed_load, bytes]
          · simp [other, takes, fetch, accepted, copyFromUser]

theorem allAllowed_streamIoctl (u : UserSpace) :
    AllAllowed (streamIoctl user sd u cmd arg) ↔ AllAllowed u ∧ IoctlReady user sd cmd arg u.mem := by
  cases cmd with
  | iPush =>
    cases flag : user .entry with
    | false => simp [streamIoctl, streamsLookup, IoctlReady, strioctlPayloadSize, flag, allAllowed_loads]
    | true => simp [streamIoctl, strncpyFromUser, IoctlReady, strioctlPayloadSize, flag, allAllowed_strncpyLoop]
  | iPop | iLink | iUnlink | iSrdtmo => simp [streamIoctl, IoctlReady, strioctlPayloadSize]
  | _ => exact allAllowed_strioctl user sd _ arg u (by simp)

end Ioctl

section Transfer

variable (user : FlagTest → Bool) (f : Option File) (buf len : Addr)

/-- How many bytes of the buffer a read fills. -/
def readSize : Nat :=
  match f with
  | some (.stream sd) => min ((sd.message.elim [] fun mp => mp.head :: mp.cont).map (·.size)).sum len.toNat
  | some (.pieces readable _) => min (readable.map (·.size)).sum len.toNat
  | _ => 0

/-- How many bytes of the buffer a write fetches. -/
def writeSize : Nat :=
  match f with
  | some (.stream sd) => if sd.connected ∧ buf ≠ 0#64 ∧ sd.allocData then (len.truncate 32).toInt.toNat else 0
  | some (.pieces _ writable) => min writable.sum len.toNat
  | _ => 0

/-- A call whose buffer is checked on entry unless its caller is taken for the kernel. -/
theorem checked_iff {u after : UserSpace} {size : Nat} (touches : AllAllowed after ↔ AllAllowed u ∧ BytesOk buf size)
    (fits : userPtrOk buf len = true → size ≤ len.toNat) :
    AllAllowed (if user .entry && !userPtrOk buf len then u else after) ↔
      AllAllowed u ∧ (user .entry = false → BytesOk buf size) := by
  cases flag : user .entry with
  | false => simpa using touches
  | true =>
    by_cases accepted : userPtrOk buf len = true
    · have bytes : BytesOk buf size := fun i less => checked_bytes _ _ accepted i (less.trans_le (fits accepted))
      simpa [accepted, bytes] using touches
    · simp [accepted]

theorem allAllowed_sysReadImpl (u : UserSpace) : AllAllowed (sysReadImpl user f u buf len) ↔
    AllAllowed u ∧ (user .entry = false → BytesOk buf (readSize f len)) := by
  apply checked_iff
  · match f with
    | some (.stream sd) =>
      cases arrived : sd.message with
      | none => simp [streamRead, readSize, arrived, BytesOk]
      | some mp => simp [streamRead, readSize, arrived, allAllowed_copyOut]
    | some (.pieces readable _) => simp [readSize, allAllowed_copyOut]
    | some .directory | none => simp [readSize, BytesOk]
  · intro _
    unfold readSize
    split <;> simp

theorem inWindow_len (a : Addr) (n : Nat) (inside : InWindow a n) : n < 2 ^ 31 := by
  have narrow : ∀ window ∈ windows, window.size.toNat < 2 ^ 31 := by decide
  obtain ⟨window, member, start, stop⟩ := inside
  have := narrow window member
  omega

/-- A length that passed the check is not changed by the conversion to int. -/
theorem checked_toInt (accepted : userPtrOk buf len = true) : (len.truncate 32).toInt = len.toNat := by
  have small : len.toNat < 2 ^ 31 := by
    rcases checked_range buf len accepted with zero | inside
    · omega
    · exact inWindow_len _ _ inside
  have kept : (len.truncate 32).toNat = len.toNat := by
    rw [BitVec.toNat_setWidth]
    omega
  rw [BitVec.toInt_eq_toNat_of_lt (by omega), kept]

theorem allAllowed_sysWriteImpl (u : UserSpace) : AllAllowed (sysWriteImpl user f u buf len) ↔
    AllAllowed u ∧ (user .entry = false → BytesOk buf (writeSize f buf len)) := by
  apply checked_iff
  · match f with
    | some (.stream sd) =>
      simp only [streamWrite, putPart, writeSize]
      generalize (len.truncate 32).toInt = n
      grind [allAllowed_load, BytesOk]
    | some (.pieces _ writable) => simp [writeSize, allAllowed_copyIn]
    | some .directory | none => simp [writeSize, BytesOk]
  · intro accepted
    unfold writeSize
    split
    · split <;> simp [checked_toInt buf len accepted]
    · exact Nat.min_le_right _ _
    · exact Nat.zero_le _

end Transfer

section Unchecked

variable (mem : Memory 64)

/-- The strbuf names a buffer that putmsg will copy from. -/
def Used (sb : Addr) : Prop := sb ≠ 0#64 ∧ 0 < intAt mem (strbufLen sb) ∧ ptrAt mem (strbufBuf sb) ≠ 0#64

/-- What putmsg needs of one strbuf pointer: the structure, as far as it is read, and the buffer it
names lie in user windows. -/
def PutReady (sb : Addr) (alloc : Bool) : Prop :=
  sb ≠ 0#64 → InWindow (strbufLen sb) 4 ∧
    (0 < intAt mem (strbufLen sb) → InWindow (strbufBuf sb) 8 ∧
      (ptrAt mem (strbufBuf sb) ≠ 0#64 → alloc = true →
        InWindow (ptrAt mem (strbufBuf sb)) (intAt mem (strbufLen sb)).toNat))

/-- What getmsg needs of one strbuf pointer: the structure lies in a user window, maxlen is not
negative where a part is present, and neither is the stretch to be filled outside the windows. -/
def GetReady (sb : Addr) (part : Option Block) : Prop :=
  sb ≠ 0#64 → InWindow (strbufLen sb) 4 ∧ ∀ block ∈ part,
    InWindow (strbufMaxlen sb) 4 ∧ InWindow (strbufBuf sb) 8 ∧ 0 ≤ intAt mem (strbufMaxlen sb) ∧
      BytesOk (ptrAt mem (strbufBuf sb)) (min block.size (intAt mem (strbufMaxlen sb)).toNat)

end Unchecked

section

variable (u : UserSpace) (sb : Addr) (alloc : Bool)
include u sb alloc

theorem putStrbuf_fst : (putStrbuf u sb alloc).1 = true ↔ ¬ (Used u.mem sb ∧ alloc = false) := by
  by_cases null : sb = 0#64
  · simp [putStrbuf, null, Used]
  · by_cases positive : 0 < intAt u.mem (strbufLen sb)
    · by_cases nonzero : ptrAt u.mem (strbufBuf sb) = 0#64 <;> cases alloc <;>
        simp [putStrbuf, putPart, null, positive, nonzero, Used]
    · simp [putStrbuf, null, positive, Used]

theorem putStrbuf_mem : (putStrbuf u sb alloc).2.mem = u.mem := by
  unfold putStrbuf putPart
  simp only
  split
  · rfl
  · split
    · split
      · split <;> rfl
      · rfl
    · rfl

theorem allAllowed_putStrbuf : AllAllowed (putStrbuf u sb alloc).2 ↔ AllAllowed u ∧ PutReady u.mem sb alloc := by
  by_cases null : sb = 0#64
  · simp [putStrbuf, PutReady, null]
  by_cases positive : 0 < intAt u.mem (strbufLen sb)
  · by_cases nonzero : ptrAt u.mem (strbufBuf sb) = 0#64 <;> cases alloc <;>
      simp [putStrbuf, putPart, PutReady, null, positive, nonzero, allAllowed_load,
        allAllowed_loadInt, allAllowed_loadPtr, bytesOk_iff, and_assoc]
  · simp [putStrbuf, PutReady, null, positive, allAllowed_loadInt]

end

theorem allAllowed_streamPutmsg (sd : Stream) (u : UserSpace) (ctl data : Addr) (connected : sd.connected = true) :
    AllAllowed (streamPutmsg sd u ctl data) ↔ AllAllowed u ∧ PutReady u.mem ctl sd.allocCtl ∧
      (¬ (Used u.mem ctl ∧ sd.allocCtl = false) → PutReady u.mem data sd.allocData) := by
  have allowed := allAllowed_putStrbuf u ctl sd.allocCtl
  have done := putStrbuf_fst u ctl sd.allocCtl
  have same := putStrbuf_mem u ctl sd.allocCtl
  simp only [streamPutmsg, connected, if_true]
  rcases put : putStrbuf u ctl sd.allocCtl with ⟨_ | _, u'⟩ <;> rw [put] at allowed done same
  · simp only [Bool.false_eq_true, false_iff] at done
    simp only [done, false_implies, and_true]
    exact allowed
  · simp only [true_iff] at done
    rw [allAllowed_putStrbuf, allowed, same, and_assoc]
    simp only [done, not_false_eq_true, true_implies]

/-- A non-negative maxlen bounds the copy; a negative one becomes a length close to 2^64. -/
theorem partLen_toNat (size : Nat) (maxlen : Int) (small : size < 2 ^ 31) (range : -2 ^ 31 ≤ maxlen ∧ maxlen < 2 ^ 31) :
    (0 ≤ maxlen ∧ (partLen size maxlen).toNat = min size maxlen.toNat) ∨
      (maxlen < 0 ∧ 2 ^ 63 ≤ (partLen size maxlen).toNat) := by
  unfold partLen
  rcases Int.lt_or_le maxlen 0 with negative | positive
  · refine .inr ⟨negative, ?_⟩
    rw [if_pos (by omega), BitVec.toNat_ofInt]
    omega
  · refine .inl ⟨positive, ?_⟩
    split
    · rw [BitVec.toNat_ofInt]
      omega
    · rw [BitVec.toNat_ofNat]
      omega

theorem copied_within_iff (size : Nat) (maxlen : Int) (buf : Addr) (small : size < 2 ^ 31)
    (range : -2 ^ 31 ≤ maxlen ∧ maxlen < 2 ^ 31) :
    (BytesOk buf (partLen size maxlen).toNat ∧ (partLen size maxlen).toNat ≤ maxlen.toNat) ↔
      0 ≤ maxlen ∧ BytesOk buf (min size maxlen.toNat) := by
  rcases partLen_toNat size maxlen small range with ⟨positive, len⟩ | ⟨negative, len⟩
  · rw [len]
    exact ⟨fun h => ⟨positive, h.1⟩, fun h => ⟨h.2, Nat.min_le_right _ _⟩⟩
  · exact ⟨fun h => by omega, fun h => by omega⟩

section

variable (user : FlagTest → Bool) (f : Option File) (mem : Memory 64) (u : UserSpace) (ctl data flagsp : Addr)

theorem allAllowed_getPart (sb : Addr) (part : Option Block) :
    AllAllowed (getPart u sb part) ↔ AllAllowed u ∧ GetReady u.mem sb part := by
  by_cases null : sb = 0#64
  · simp [getPart, GetReady, null]
  cases part with
  | none => simp [getPart, GetReady, null, allAllowed_storeInt]
  | some block =>
    have within := copied_within_iff block.size (intAt u.mem (strbufMaxlen sb)) (ptrAt u.mem (strbufBuf sb))
      block.small ⟨BitVec.le_toInt _, BitVec.toInt_lt⟩
    simp only [getPart, GetReady, null, if_false, allAllowed_storeInt, allAllowed_store, allAllowed_loadPtr,
      allAllowed_loadInt, loadInt_value, loadPtr_value, loadInt_mem, Option.mem_some_iff, forall_eq',
      not_false_eq_true, true_implies, ne_eq]
    simp only [within, and_assoc, and_left_comm, and_comm]

theorem allAllowed_getFlags :
    AllAllowed (getFlags u flagsp) ↔ AllAllowed u ∧ (flagsp ≠ 0#64 → InWindow flagsp 4) := by
  by_cases null : flagsp = 0#64
  · simp [getFlags, null]
  · simp [getFlags, null, allAllowed_storeInt]

theorem drainTest_log (allowed : AllAllowed (drainTest u ctl data)) :
    AllAllowed u := by
  have ctlTest (u : UserSpace)
      (allowed : AllAllowed (if ctl = 0#64 then u else (loadInt u (strbufLen ctl)).2)) : AllAllowed u := by
    split at allowed
    · exact allowed
    · exact ((allAllowed_loadInt _ _).mp allowed).1
  simp only [drainTest] at allowed
  split at allowed
  · exact ctlTest u allowed
  · split at allowed
    · exact ((allAllowed_loadInt _ _).mp allowed).1
    · exact ((allAllowed_loadInt _ _).mp (ctlTest _ allowed)).1

/-- The final look at the two len fields touches nothing that the copies did not touch. -/
theorem drainTest_allowed (ctlOk : ctl ≠ 0#64 → InWindow (strbufLen ctl) 4)
    (dataOk : data ≠ 0#64 → InWindow (strbufLen data) 4) (allowed : AllAllowed u) :
    AllAllowed (drainTest u ctl data) := by
  have ctlTest (u : UserSpace) (allowed : AllAllowed u) :
      AllAllowed (if ctl = 0#64 then u else (loadInt u (strbufLen ctl)).2) := by
    split
    · exact allowed
    next nonnull => exact (allAllowed_loadInt _ _).mpr ⟨allowed, ctlOk nonnull⟩
  simp only [drainTest]
  split
  · exact ctlTest u allowed
  next nonnull =>
    have read := (allAllowed_loadInt _ _).mpr ⟨allowed, dataOk nonnull⟩
    split
    · exact read
    · exact ctlTest _ read

theorem allAllowed_streamGetmsg (sd : Stream) (u : UserSpace) (ctl data flagsp : Addr) (mp : Message)
    (arrived : sd.message = some mp) :
    AllAllowed (streamGetmsg sd u ctl data flagsp) ↔ AllAllowed u ∧ GetReady u.mem ctl mp.control ∧
      GetReady (getPart u ctl mp.control).mem data mp.data ∧ (flagsp ≠ 0#64 → InWindow flagsp 4) := by
  have copies : AllAllowed (getFlags (getPart (getPart u ctl mp.control) data mp.data) flagsp) ↔
      AllAllowed u ∧ GetReady u.mem ctl mp.control ∧
        GetReady (getPart u ctl mp.control).mem data mp.data ∧ (flagsp ≠ 0#64 → InWindow flagsp 4) := by
    rw [allAllowed_getFlags, allAllowed_getPart, allAllowed_getPart, and_assoc, and_assoc]
  simp only [streamGetmsg, arrived]
  split
  · exact copies
  · constructor
    · intro allowed
      exact copies.mp (drainTest_log _ ctl data allowed)
    · intro ready
      exact drainTest_allowed _ _ _ (fun nonnull => (ready.2.1 nonnull).1) (fun nonnull => (ready.2.2.1 nonnull).1)
        (copies.mpr ready)

def afterControl (mp : Message) : Memory 64 :=
  (getPart ⟨mem, []⟩ ctl mp.control).mem

/-- What a call needs of its arguments, of the memory they point to, of what it reads in syscall_from_user and of the
message that is waiting. -/
def Guarded : Call → Prop
  | .read buf len => user .entry = false → BytesOk buf (readSize f len)
  | .write buf len => user .entry = false → BytesOk buf (writeSize f buf len)
  | .ioctl cmd arg => ∀ sd, f = some (.stream sd) → IoctlReady user sd cmd arg mem
  | .putmsg ctl data => ∀ sd, f = some (.stream sd) → sd.connected = true →
      PutReady mem ctl sd.allocCtl ∧
        (¬ (Used mem ctl ∧ sd.allocCtl = false) → PutReady mem data sd.allocData)
  | .getmsg ctl data flagsp => ∀ sd, f = some (.stream sd) → ∀ mp, sd.message = some mp →
      GetReady mem ctl mp.control ∧ GetReady (afterControl mem ctl mp) data mp.data ∧
        (flagsp ≠ 0#64 → InWindow flagsp 4)

theorem allAllowed_nil : AllAllowed ⟨mem, []⟩ := by
  simp [AllAllowed]

theorem putmsg_allowed_iff :
    AllAllowed (sysPutmsgImpl f ⟨mem, []⟩ ctl data) ↔ Guarded user f mem (.putmsg ctl data) := by
  have start := allAllowed_nil mem
  match f with
  | some (.stream sd) =>
    by_cases connected : sd.connected = true
    · rw [sysPutmsgImpl, allAllowed_streamPutmsg sd _ _ _ connected]
      simp [Guarded, start, connected]
    · simp [sysPutmsgImpl, streamPutmsg, Guarded, connected, start]
  | some (.pieces _ _) | some .directory | none => simp [sysPutmsgImpl, Guarded, start]

theorem getmsg_allowed_iff :
    AllAllowed (sysGetmsgImpl f ⟨mem, []⟩ ctl data flagsp) ↔ Guarded user f mem (.getmsg ctl data flagsp) := by
  have start := allAllowed_nil mem
  match f with
  | some (.stream sd) =>
    cases arrived : sd.message with
    | none => simp [sysGetmsgImpl, streamGetmsg, Guarded, arrived, start]
    | some mp =>
      rw [sysGetmsgImpl, allAllowed_streamGetmsg sd _ _ _ _ mp arrived]
      simp [Guarded, start, arrived, afterControl]
  | some (.pieces _ _) | some .directory | none => simp [sysGetmsgImpl, Guarded, start]

end

theorem syscall_touches_user_only_iff (user : FlagTest → Bool) (f : Option File) (mem : Memory 64) (call : Call) :
    AllAllowed (syscall user f ⟨mem, []⟩ call) ↔ Guarded user f mem call := by
  have start := allAllowed_nil mem
  cases call with
  | read buf len => exact (allAllowed_sysReadImpl ..).trans (and_iff_right start)
  | write buf len => exact (allAllowed_sysWriteImpl ..).trans (and_iff_right start)
  | ioctl cmd arg =>
    match f with
    | some (.stream sd) =>
      simpa [syscall, sysIoctlImpl, Guarded, start] using allAllowed_streamIoctl user sd cmd arg ⟨mem, []⟩
    | some (.pieces _ _) | some .directory | none => simpa [syscall, sysIoctlImpl, Guarded] using start
  | putmsg ctl data => exact putmsg_allowed_iff user f mem ctl data
  | getmsg ctl data flagsp => exact getmsg_allowed_iff user f mem ctl data flagsp

def readyStream : Stream where
  connected := true
  message := some ⟨false, ⟨1, fun _ => 0x41, by decide⟩, []⟩
  allocCtl := true
  allocData := true
  ioctlAck := none
  registry := []

/-- A strbuf at the base of the init window: a negative maxlen, len 1, and a buffer at the kernel
address 0x80000. -/
def hostileStrbuf : Memory 64 := fun a =>
  if a = 0x10000003 then 0x80 else if a = 0x10000004 then 1 else if a = 0x1000000a then 8 else 0

/-- One putmsg reads a kernel byte, and one getmsg writes at the same address past any bound. So does a read whose
caller is taken for the kernel. -/
theorem putmsg_getmsg_touch_kernel :
    (∃ access ∈ (syscall (fun _ => true) (some (.stream readyStream)) ⟨hostileStrbuf, []⟩ (.putmsg 0 0x10000000)).log,
      access.addr = 0x80000 ∧ access.store = false ∧ userPtrOk access.addr 1 = false) ∧
    (∃ access ∈ (syscall (fun _ => true) (some (.stream readyStream)) ⟨hostileStrbuf, []⟩ (.getmsg 0 0x10000000 0)).log,
      access.addr = 0x80000 ∧ access.store = true ∧ 0 < access.len ∧ access.limit = some 0 ∧
        userPtrOk access.addr 1 = false) ∧
    ∃ access ∈ (syscall (fun _ => false) (some (.stream readyStream)) ⟨hostileStrbuf, []⟩ (.read 0x80000 1)).log,
      access.addr = 0x80000 ∧ access.store = true ∧ 0 < access.len ∧ userPtrOk access.addr 1 = false := by
  decide

end Kappara.StreamHead
