import Kappara.Lib.Run

/-! The I/O queue pair of the NVMe driver (nvme_strategy, nvme_test_io and
nvme_io_submit_and_wait of uts/virt/nvme.c) and the controller behind it.

Threads share the driver's record and take no lock. One step of a thread is one
access to the shared record, to the queues or to a doorbell, so a thread may be
preempted between any two of them. The controller fetches and completes commands
at times of its own, in the order of the submission queue. -/

set_option autoImplicit false

namespace Kappara.Nvme

open Function (update)

/-- A position of a queue of NVME_IOQ_DEPTH entries. -/
abbrev Slot := Fin 32

/-- The fields of a submission queue entry that the driver sets; the others are zero. -/
structure Sqe where
  opc : BitVec 8
  cid : BitVec 16
  nsid : BitVec 32
  prp1 : BitVec 64
  cdw10 : BitVec 32
  cdw11 : BitVec 32
  cdw12 : BitVec 32
  deriving DecidableEq

/-- The 64 bytes of an entry, in the words they are copied in. -/
def Sqe.words (c : Sqe) : Fin 8 → BitVec 64
  | 0 => c.nsid ++ c.cid ++ (0 : BitVec 8) ++ c.opc
  | 3 => c.prp1
  | 5 => c.cdw11 ++ c.cdw10
  | 6 => (0 : BitVec 32) ++ c.cdw12
  | _ => 0

def word (status : BitVec 15) (phase : Bool) : BitVec 16 := status ++ BitVec.ofBool phase

def phaseTag (s : BitVec 16) : Bool := (s &&& 1) == 1

def scSct (s : BitVec 16) : BitVec 16 := (s >>> 1) &&& 0x3FF

def statusCode (status : BitVec 15) : BitVec 8 := status.extractLsb' 0 8

def statusType (status : BitVec 15) : BitVec 3 := status.extractLsb' 8 3

/-- The controller reports success with SC and SCT both zero. -/
def failed (status : BitVec 15) : Bool := statusCode status != 0 || statusType status != 0

structure Disk where
  singletonInit : Bool
  nsid : BitVec 32
  nblocks : BitVec 32
  homeNblocks : BitVec 32
  deriving DecidableEq

structure Buf where
  blkno : BitVec 64
  bcount : Nat
  reading : Bool
  addr : BitVec 64
  deriving DecidableEq

def homeFirstLba : BitVec 64 := 65536

def blkSize : Nat := 512

/-- The command of nvme_strategy; none where the request is refused. -/
def strategyCmd (disk : Disk) (minor : Nat) (bp : Buf) : Option Sqe :=
  let lbaOffset := if minor = 1 then homeFirstLba else 0
  let nblocks := if minor = 1 then disk.homeNblocks else disk.nblocks
  if !disk.singletonInit || nblocks.setWidth 64 ≤ bp.blkno || bp.bcount != blkSize then none
  else
    let lba := bp.blkno + lbaOffset
    some {
      opc := if bp.reading then 2 else 1
      cid := 0
      nsid := disk.nsid
      prp1 := bp.addr
      cdw10 := lba.setWidth 32
      cdw11 := (lba >>> 32).setWidth 32
      cdw12 := 0 }

def testCmd (disk : Disk) (isWrite : Bool) (lba : BitVec 32) (buf : BitVec 64) : Sqe where
  opc := if isWrite then 1 else 2
  cid := 0
  nsid := disk.nsid
  prp1 := buf
  cdw10 := lba
  cdw11 := 0
  cdw12 := 0

/-- Where a thread is, with its local values. A call that has read the tail is known by its number;
biodone is the report, with the number of its command if it has one. -/
inductive Pc where
  | idle
  | loadCid (cmd : Sqe)
  | storeCid (cmd : Sqe) (cid : BitVec 16)
  | loadTail (cmd : Sqe)
  | storeSqe (k : Nat) (slot : Slot) (i : Fin 8)
  | nextTail (k : Nat)
  | storeTail (k : Nat) (tail : Slot)
  | readTail (k : Nat)
  | ringSq (k : Nat) (tail : Slot)
  | loadHead (k : Nat)
  | readStatus (k : Nat) (head : Slot)
  | testPhase (k : Nat) (s : BitVec 16)
  | nextHead (k : Nat) (s : BitVec 16)
  | storeHead (k : Nat) (s : BitVec 16) (head : Slot)
  | testHead (k : Nat) (s : BitVec 16)
  | loadPhase (k : Nat) (s : BitVec 16)
  | storePhase (k : Nat) (s : BitVec 16) (phase : Bool)
  | readHead (k : Nat) (s : BitVec 16)
  | ringCq (k : Nat) (s : BitVec 16) (head : Slot)
  | biodone (k : Option Nat) (error : Bool)
  deriving DecidableEq

/-- Between the first use of the tail and the last doorbell. -/
def Pc.busy : Pc → Bool
  | .idle | .loadCid _ | .storeCid .. | .loadTail _ | .biodone .. => false
  | _ => true

def Pc.entering : Pc → Bool
  | .loadTail _ => true
  | _ => false

/-- The controller with the completion queue it writes. A fetched entry is known by the call whose
command it holds. fetched keeps the words read for each call, completed the status given to it. -/
structure Controller where
  sqDb : Slot
  cqDb : Slot
  sqHead : Slot
  pending : List (Option Nat)
  cqTail : Slot
  cqPhase : Bool
  iocq : Slot → BitVec 16
  fetched : Nat → Option (Fin 8 → BitVec 64)
  completed : Nat → Option (BitVec 15)

/-- The driver's record and queues, the controller and the threads. calls counts the commands put in
the queue, cmd is the local command of each, holder the call that last wrote to an entry. -/
structure Sys (T : Type) where
  nextCid : BitVec 16
  iosq : Slot → Fin 8 → BitVec 64
  iosqTail : Slot
  iocqHead : Slot
  iocqPhase : Bool
  ctrl : Controller
  pc : T → Pc
  calls : Nat
  cmd : Nat → Sqe
  holder : Slot → Option Nat

def Controller.fetch (c : Controller) (entry : Fin 8 → BitVec 64) (k : Option Nat) : Controller :=
  { c with
    sqHead := c.sqHead + 1
    pending := c.pending ++ [k]
    fetched := match k with
      | none => c.fetched
      | some k => update c.fetched k (some entry) }

def Controller.post (c : Controller) (status : BitVec 15) (k : Option Nat) (rest : List (Option Nat)) : Controller :=
  { c with
    pending := rest
    cqTail := c.cqTail + 1
    cqPhase := if c.cqTail + 1 = 0 then !c.cqPhase else c.cqPhase
    iocq := update c.iocq c.cqTail (word status c.cqPhase)
    completed := match k with
      | none => c.completed
      | some k => update c.completed k (some status) }

section
variable {T : Type} [DecidableEq T]

def Sys.goto (s : Sys T) (t : T) (pc : Pc) : Sys T := { s with pc := update s.pc t pc }

/-- The next access of a thread inside nvme_io_submit_and_wait, and biodone. -/
def run (s : Sys T) (t : T) : Option (Sys T) :=
  match s.pc t with
  | .idle => none
  | .loadCid cmd => some (s.goto t (.storeCid cmd s.nextCid))
  | .storeCid cmd cid => some { s.goto t (.loadTail { cmd with cid := cid }) with nextCid := cid + 1 }
  | .loadTail cmd =>
    some { s.goto t (.storeSqe s.calls s.iosqTail 0) with
      calls := s.calls + 1
      cmd := update s.cmd s.calls cmd }
  | .storeSqe k slot i =>
    some { s.goto t (if i = 7 then .nextTail k else .storeSqe k slot (i + 1)) with
      iosq := update s.iosq slot (update (s.iosq slot) i ((s.cmd k).words i))
      holder := update s.holder slot (some k) }
  | .nextTail k => some (s.goto t (.storeTail k (s.iosqTail + 1)))
  | .storeTail k tail => some { s.goto t (.readTail k) with iosqTail := tail }
  | .readTail k => some (s.goto t (.ringSq k s.iosqTail))
  | .ringSq k tail => some { s.goto t (.loadHead k) with ctrl := { s.ctrl with sqDb := tail } }
  | .loadHead k => some (s.goto t (.readStatus k s.iocqHead))
  | .readStatus k head => some (s.goto t (.testPhase k (s.ctrl.iocq head)))
  | .testPhase k status => some (s.goto t (if phaseTag status = s.iocqPhase then .nextHead k status else .loadHead k))
  | .nextHead k status => some (s.goto t (.storeHead k status (s.iocqHead + 1)))
  | .storeHead k status head => some { s.goto t (.testHead k status) with iocqHead := head }
  | .testHead k status => some (s.goto t (if s.iocqHead = 0 then .loadPhase k status else .readHead k status))
  | .loadPhase k status => some (s.goto t (.storePhase k status s.iocqPhase))
  | .storePhase k status phase => some { s.goto t (.readHead k status) with iocqPhase := !phase }
  | .readHead k status => some (s.goto t (.ringCq k status s.iocqHead))
  | .ringCq k status head =>
    some { s.goto t (.biodone (some k) (scSct status != 0)) with ctrl := { s.ctrl with cqDb := head } }
  | .biodone .. => some (s.goto t .idle)

inductive Event (T : Type) where
  | strategy (t : T) (minor : Nat) (bp : Buf)
  | testIo (t : T) (isWrite : Bool) (lba : BitVec 32) (buf : BitVec 64)
  | run (t : T)
  | fetch
  | complete (status : BitVec 15)

def step (disk : Disk) (s : Sys T) : Event T → Option (Sys T)
  | .strategy t minor bp =>
    if s.pc t = .idle then
      match strategyCmd disk minor bp with
      | none => some (s.goto t (.biodone none true))
      | some cmd => some (s.goto t (.loadCid cmd))
    else none
  | .testIo t isWrite lba buf =>
    if s.pc t = .idle then some (s.goto t (.loadCid (testCmd disk isWrite lba buf))) else none
  | .run t => run s t
  | .fetch =>
    let c := s.ctrl
    if c.sqHead = c.sqDb then none
    else some { s with ctrl := c.fetch (s.iosq c.sqHead) (s.holder c.sqHead) }
  | .complete status =>
    let c := s.ctrl
    -- a full completion queue holds the controller back
    if c.cqTail + 1 = c.cqDb then none
    else match c.pending with
      | [] => none
      | k :: rest => some { s with ctrl := c.post status k rest }

end

def Sys.start (T : Type) : Sys T where
  nextCid := 0
  iosq := fun _ _ => 0
  iosqTail := 0
  iocqHead := 0
  iocqPhase := true
  ctrl := {
    sqDb := 0
    cqDb := 0
    sqHead := 0
    pending := []
    cqTail := 0
    cqPhase := true
    iocq := fun _ => 0
    fetched := fun _ => none
    completed := fun _ => none }
  pc := fun _ => .idle
  calls := 0
  cmd := fun _ => ⟨0, 0, 0, 0, 0, 0, 0⟩
  holder := fun _ => none

/-- nextCid, which the admin commands of the bring-up have used, may be anything. -/
def Booted {T : Type} (s : Sys T) : Prop := ∃ cid, s = { Sys.start T with nextCid := cid }

end Kappara.Nvme
