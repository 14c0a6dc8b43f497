import Kappara.Kernel.Uaccess

/-! Message transfer between user buffers and a stream
(uts/os/io/stream_head.c, the system-call wrappers of uts/os/fs/vfs.c).

syscall_from_user is one variable for all processors: what a call reads there can
change from one test to the next, also for a caller at EL0. That and what a call
finds in the kernel (the message at the head of the queue, the outcome of an
allocation, the answer of a module) are parameters; what it does to user memory
is computed, with every load and store logged. -/

set_option autoImplicit false

namespace Kappara.StreamHead

open ByteMemory Uaccess

/-- A message block: size bytes from b_rptr on. The reader of byte also sees the kernel memory past
the block, which an oversized copy would run into. -/
structure Block where
  size : Nat
  byte : Nat → Byte
  small : size < 2 ^ 31

structure Message where
  proto : Bool
  head : Block
  cont : List Block

def Message.control (mp : Message) : Option Block := if mp.proto then some mp.head else none

def Message.data (mp : Message) : Option Block := if mp.proto then mp.cont.head? else some mp.head

/-- Where a call reads syscall_from_user: in its wrapper, and around the two copies of strioctl. -/
inductive FlagTest where
  | entry | copyIn | copyOut
  deriving DecidableEq

structure Stream where
  /-- sd_wq->q_next is set -/
  connected : Bool
  /-- the message getq ends with; none when the wait ends by EOF, a signal or a timeout -/
  message : Option Message
  allocCtl : Bool
  allocData : Bool
  /-- a successful M_IOCACK and the block chained to it -/
  ioctlAck : Option (Option Block)
  /-- the names in the registry of modules, in order -/
  registry : List (List Byte)

/-- The open files: streams, and those whose read and write copy piece by piece (a disk block, what is
left of a file or a blob) and that have no message operations. -/
inductive File where
  | stream (sd : Stream)
  | pieces (readable : List Block) (writable : List Nat)
  | directory

variable (user : FlagTest → Bool) (f : Option File) (sd : Stream) (u : UserSpace) (sb : Addr)

def loadInt (a : Addr) : Int × UserSpace :=
  let (bytes, u) := u.load a 4
  ((BitVec.ofNat 32 (ofLe bytes)).toInt, u)

def loadPtr (a : Addr) : Addr × UserSpace :=
  let (bytes, u) := u.load a 8
  (BitVec.ofNat 64 (ofLe bytes), u)

def intBytes (value : Int) (i : Nat) : Byte := (BitVec.ofInt 32 value >>> (8 * i)).truncate 8

def storeInt (a : Addr) (value : Int) : UserSpace := u.store a 4 (intBytes value) none

/-- The copy loop of stream_read and of the block and regular-file reads: consecutive pieces go to
consecutive positions of the buffer until len bytes are in it. -/
def copyOut (u : UserSpace) (buf : Addr) (len copied : Nat) : List Block → UserSpace
  | [] => u
  | cur :: rest =>
    if copied < len then
      let n := min cur.size (len - copied)
      copyOut (u.store (buf + BitVec.ofNat 64 copied) n cur.byte none) buf len (copied + n) rest
    else u

/-- The same loop in the other direction; each entry is the room of one block. -/
def copyIn (u : UserSpace) (buf : Addr) (len done : Nat) : List Nat → UserSpace
  | [] => u
  | room :: rest =>
    if done < len then
      let n := min room (len - done)
      copyIn (u.load (buf + BitVec.ofNat 64 done) n).2 buf len (done + n) rest
    else u

/-- One part of stream_putmsg once len and buf are known; false when the allocation failed. -/
def putPart (len : Int) (buf : Addr) (alloc : Bool) : Bool × UserSpace :=
  if 0 < len ∧ buf ≠ 0#64 then
    if alloc then (true, (u.load buf len.toNat).2) else (false, u)
  else (true, u)

def strbufMaxlen : Addr := sb
def strbufLen : Addr := sb + 4
def strbufBuf : Addr := sb + 8

/-- One part of stream_putmsg described by the caller's strbuf; buf is read only when len is positive. -/
def putStrbuf (alloc : Bool) : Bool × UserSpace :=
  if sb = 0#64 then (true, u)
  else
    let (len, u) := loadInt u (strbufLen sb)
    if 0 < len then
      let (buf, u) := loadPtr u (strbufBuf sb)
      putPart u len buf alloc
    else (true, u)

def streamPutmsg (ctl data : Addr) : UserSpace :=
  if sd.connected then
    match putStrbuf u ctl sd.allocCtl with
    | (false, u) => u
    | (true, u) => (putStrbuf u data sd.allocData).2
  else u

/-- stream_write builds its strbuf in the kernel, so only the buffer is user memory. -/
def streamWrite (buf len : Addr) : UserSpace :=
  if sd.connected then (putPart u (len.truncate 32).toInt buf sd.allocData).2 else u

def streamRead (buf len : Addr) : UserSpace :=
  match sd.message with
  | none => u
  | some mp => copyOut u buf len.toNat 0 (mp.head :: mp.cont)

/-- The length stream_getmsg copies for a part: a maxlen below the part's size replaces it, converted
to size_t. -/
def partLen (size : Nat) (maxlen : Int) : Addr :=
  if maxlen < size then BitVec.ofInt 64 maxlen else BitVec.ofNat 64 size

/-- One part of stream_getmsg. The buffer's address is fetched before the copy and len is written
after it; an absent part is reported as -1. -/
def getPart (part : Option Block) : UserSpace :=
  if sb = 0#64 then u
  else
    match part with
    | none => storeInt u (strbufLen sb) (-1)
    | some block =>
      let (maxlen, u) := loadInt u (strbufMaxlen sb)
      let n := partLen block.size maxlen
      let (buf, u) := loadPtr u (strbufBuf sb)
      let u := u.store buf n.toNat block.byte (some maxlen.toNat)
      storeInt u (strbufLen sb) (n.truncate 32).toInt

def getFlags (flagsp : Addr) : UserSpace :=
  if flagsp = 0#64 then u else storeInt u flagsp 0

/-- The final test for the drain hook reads data->len, and ctl->len when that is not positive. -/
def drainTest (ctl data : Addr) : UserSpace :=
  let ctlTest (u : UserSpace) : UserSpace := if ctl = 0#64 then u else (loadInt u (strbufLen ctl)).2
  if data = 0#64 then ctlTest u
  else
    let (len, u) := loadInt u (strbufLen data)
    if 0 < len then u else ctlTest u

/-- Bytes of the data part left over after the copy; u is the memory the copy started from. -/
def leftover (data : Addr) : Option Block → Bool
  | none => false
  | some block =>
    if data = 0#64 then 0 < block.size
    else (partLen block.size (loadInt u (strbufMaxlen data)).1).toInt < block.size

def streamGetmsg (ctl data flagsp : Addr) : UserSpace :=
  match sd.message with
  | none => u
  | some mp =>
    let u := getPart u ctl mp.control
    let rest := leftover u data mp.data
    let u := getPart u data mp.data
    let u := getFlags u flagsp
    -- a leftover behind a control part needs a copy of the control part; without one the call ends here
    if rest && mp.control.isSome && !sd.allocCtl then u else drainTest u ctl data

/-- sizeof(struct termios) and sizeof(struct kifreq) -/
def termiosSize : Nat := 24
def kifreqSize : Nat := 20

inductive IoctlCmd where
  | iPush | iPop | iLink | iUnlink | iSrdtmo
  | tcgeta | tcseta | tcsetaw | tcsetaf | tcflsh
  | siocsifaddr | siocgifaddr | siocsifnetmask | siocgifnetmask | siocsifgw | siocgifgw
  | siocsifdns | siocgifdns | siocgifhwaddr
  | unknown
  deriving DecidableEq

def strioctlPayloadSize : IoctlCmd → Option Nat
  | .tcgeta | .tcseta | .tcsetaw | .tcsetaf => some termiosSize
  | .tcflsh => some 0
  | .siocsifaddr | .siocgifaddr | .siocsifnetmask | .siocgifnetmask | .siocsifgw | .siocgifgw
  | .siocsifdns | .siocgifdns | .siocgifhwaddr => some kifreqSize
  | _ => none

def strioctlCopiesIn : IoctlCmd → Bool
  | .tcseta | .tcsetaw | .tcsetaf => true
  | .siocsifaddr | .siocgifaddr | .siocsifnetmask | .siocgifnetmask | .siocsifgw | .siocgifgw
  | .siocsifdns | .siocgifdns | .siocgifhwaddr => true
  | _ => false

def strioctlCopiesOut : IoctlCmd → Bool
  | .tcgeta | .siocgifaddr | .siocgifnetmask | .siocgifgw | .siocgifdns | .siocgifhwaddr => true
  | _ => false

variable (cmd : IoctlCmd) (arg : Addr)

/-- The answer's payload goes back to the caller, cut to the command's own size. -/
def strioctlReply (payload : Nat) : UserSpace :=
  match sd.ioctlAck with
  | some (some block) =>
    let n := min block.size payload
    if strioctlCopiesOut cmd then
      if user .copyOut then (copyToUser u arg (BitVec.ofNat 64 n) block.byte).2 else u.store arg n block.byte none
    else u
  | _ => u

/-- There is a module to ask and a block for the header and for the payload. -/
def Stream.takesIoctl (payload : Nat) : Bool := sd.connected && sd.allocCtl && (payload = 0 || sd.allocData)

def fetches (payload : Nat) : Bool := 0 < payload && strioctlCopiesIn cmd

def strioctl : UserSpace :=
  match strioctlPayloadSize cmd with
  | none => u
  | some payload =>
    if sd.takesIoctl payload then
      if fetches cmd payload then
        if user .copyIn then
          match copyFromUser u arg (BitVec.ofNat 64 payload) with
          | (none, u) => u
          | (some _, u) => strioctlReply user sd u cmd arg payload
        else strioctlReply user sd (u.load arg payload).2 cmd arg payload
      else strioctlReply user sd u cmd arg payload
    else u

/-- The bytes at a that agree with the name. -/
def agreeing (mem : Memory 64) (a : Addr) : List Byte → Nat
  | [] => 0
  | b :: rest => if mem a = b then agreeing mem (a + 1) rest + 1 else 0

/-- How many bytes of the string at a each kstrcmp of streams_lookup reads, up to the name that is found. -/
def compared (mem : Memory 64) (a : Addr) : List (List Byte) → List Nat
  | [] => []
  | name :: rest =>
    let n := agreeing mem a name
    (n + 1) :: if n = name.length ∧ mem (a + BitVec.ofNat 64 n) = 0 then [] else compared mem a rest

def streamsLookup (registry : List (List Byte)) : UserSpace :=
  (compared u.mem arg registry).foldl (fun u n => (u.load arg n).2) u

/-- The name of I_PUSH is copied before the stream head sees it if the caller is taken for a user; the integer commands
use no pointer. -/
def streamIoctl : UserSpace :=
  match cmd with
  | .iPush => if user .entry then (strncpyFromUser u arg 64).2 else streamsLookup u arg sd.registry
  | .iPop | .iLink | .iUnlink | .iSrdtmo => u
  | cmd => strioctl user sd u cmd arg

/-- The five calls with the pointer arguments they take from registers. -/
inductive Call where
  | read (buf len : Addr)
  | write (buf len : Addr)
  | ioctl (cmd : IoctlCmd) (arg : Addr)
  | putmsg (ctl data : Addr)
  | getmsg (ctl data flagsp : Addr)
  deriving DecidableEq

def sysReadImpl (buf len : Addr) : UserSpace :=
  if user .entry && !userPtrOk buf len then u
  else
    match f with
    | some (.stream sd) => streamRead sd u buf len
    | some (.pieces readable _) => copyOut u buf len.toNat 0 readable
    | _ => u

def sysWriteImpl (buf len : Addr) : UserSpace :=
  if user .entry && !userPtrOk buf len then u
  else
    match f with
    | some (.stream sd) => streamWrite sd u buf len
    | some (.pieces _ writable) => copyIn u buf len.toNat 0 writable
    | _ => u

def sysIoctlImpl : UserSpace :=
  match f with
  | some (.stream sd) => streamIoctl user sd u cmd arg
  | _ => u

def sysPutmsgImpl (ctl data : Addr) : UserSpace :=
  match f with
  | some (.stream sd) => streamPutmsg sd u ctl data
  | _ => u

def sysGetmsgImpl (ctl data flagsp : Addr) : UserSpace :=
  match f with
  | some (.stream sd) => streamGetmsg sd u ctl data flagsp
  | _ => u

/-- f is what fd_get finds for the descriptor. -/
def syscall : Call → UserSpace
  | .read buf len => sysReadImpl user f u buf len
  | .write buf len => sysWriteImpl user f u buf len
  | .ioctl cmd arg => sysIoctlImpl user f u cmd arg
  | .putmsg ctl data => sysPutmsgImpl f u ctl data
  | .getmsg ctl data flagsp => sysGetmsgImpl f u ctl data flagsp

end Kappara.StreamHead
