import Kappara.Lib.PhaseRing
import Kappara.Lib.Run

/-! The transmit rings of the two network drivers (virtio_net_tx_bytes and
virtio_net_irq of uts/virt/virtio_net.c, ena_eth_tx and ena_tx_drain of
uts/virt/ena.c) and the devices behind them.

A send copies the frame to a page of its own and posts descriptors for it in the
slots that a counter names. The device returns what was posted at times of its
own and in any order. Pages are numbered in the order they are taken. -/

set_option autoImplicit false

namespace Kappara.Transmit

open PhaseRing
open Function (update)

/-- What happened to the payload pages: how many were taken, which the device has returned, which it had
returned when the driver last looked for returned ones, how often each was freed, and those of which a
descriptor was rewritten while the device had it. -/
structure Audit where
  pages : Nat
  returned : Nat → Bool
  known : Nat → Bool
  freed : Nat → Nat
  overwritten : List Nat

def Audit.start : Audit := ⟨0, fun _ => false, fun _ => false, fun _ => 0, []⟩

/-- A page is taken, and slots last written for the given pages are written for it. -/
def Audit.post (a : Audit) (owners : List Nat) : Audit :=
  { a with pages := a.pages + 1, overwritten := a.overwritten ++ owners.filter fun k => !a.returned k }

def Audit.give (a : Audit) (k : Nat) : Audit := { a with returned := update a.returned k true }

def Audit.free (a : Audit) (k : Nat) : Audit := { a with freed := update a.freed k (a.freed k + 1) }

def Audit.look (a : Audit) : Audit := { a with known := a.returned }

def Audit.held (a : Audit) : Finset Nat := (Finset.range a.pages).filter fun k => a.freed k = 0

/-- Each page and each slot belongs to one side at a time. -/
structure OneOwner (size : Nat) (a : Audit) : Prop where
  kept : a.overwritten = []
  once : ∀ k, a.freed k ≤ 1
  after : ∀ k, a.freed k ≠ 0 → a.returned k = true
  released : ∀ k, a.known k = true → a.freed k = 1
  bounded : a.held.card ≤ size

/-! ## ENA -/

structure TxDesc where
  lenCtrl : BitVec 32
  metaCtrl : BitVec 32
  page : Nat
  deriving DecidableEq

/-- The descriptor of ena_eth_tx, with the phase and the first, last and comp_req bits. -/
def txDesc (len : Nat) (rid : BitVec 16) (phase : Bool) (page : Nat) : TxDesc where
  lenCtrl := (BitVec.ofNat 32 len &&& 0xffff) ||| (((rid >>> 5).setWidth 32 &&& 0x3f) <<< 16) |||
    (if phase then 0x1000000 else 0) ||| 0x4000000 ||| 0x8000000 ||| 0x10000000
  metaCtrl := (rid.setWidth 32 &&& 0x1f) <<< 22
  page := page

def TxDesc.reqId (d : TxDesc) : BitVec 16 :=
  ((((d.lenCtrl >>> 16) &&& 0x3f) <<< 5) ||| ((d.metaCtrl >>> 22) &&& 0x1f)).setWidth 16

/-- The transmit side of an ena_dev. cring holds the completions with their phase flag; draining tells that
ena_tx_drain is running. The device has the posted descriptors and has written cqTail completions. owner is
the page for which a slot was last written. -/
structure Ena where
  sqTail : BitVec 16
  sqPhase : Bool
  cqHead : BitVec 16
  cqPhase : Bool
  ring : Nat → TxDesc
  txBufs : Nat → Option Nat
  cring : Nat → BitVec 16 × Bool
  draining : Bool
  posted : List TxDesc
  cqTail : Nat
  owner : Nat → Option Nat
  audit : Audit

namespace Ena

def ioqDepth : Nat := 64

def rxBufBytes : Nat := 2048

def accepts (ready : Bool) (len : Nat) (page : Bool) : Bool := ready && len != 0 && len ≤ rxBufBytes && page

variable (depth : Nat) (s : Ena)

def slot : Nat := s.sqTail.toNat % depth

def enaEthTx (len : Nat) : Ena :=
  let slot := s.slot depth
  let desc := txDesc (if len < 60 then 60 else len) (BitVec.ofNat 16 slot) s.sqPhase s.audit.pages
  { s with
    txBufs := update s.txBufs slot (some s.audit.pages)
    ring := update s.ring slot desc
    sqTail := s.sqTail + 1
    sqPhase := if (s.sqTail + 1).toNat % depth = 0 then !s.sqPhase else s.sqPhase
    draining := true
    posted := s.posted ++ [desc]
    owner := update s.owner slot (some s.audit.pages)
    audit := s.audit.post (s.owner slot).toList }

def fresh : Bool := (s.cring (s.cqHead.toNat % depth)).2 == s.cqPhase

def reclaim (slot : Nat) : Ena :=
  match s.txBufs slot with
  | none => s
  | some k => { s with txBufs := update s.txBufs slot none, audit := s.audit.free k }

/-- One round of the loop of ena_tx_drain. -/
def enaTxDrain : Ena :=
  if s.fresh depth then
    { s.reclaim ((s.cring (s.cqHead.toNat % depth)).1.toNat % ioqDepth) with
      cqHead := s.cqHead + 1
      cqPhase := if (s.cqHead + 1).toNat % depth = 0 then !s.cqPhase else s.cqPhase }
  else { s with draining := false, audit := s.audit.look }

def complete (i : Nat) (desc : TxDesc) : Ena :=
  { s with
    posted := s.posted.eraseIdx i
    cring := update s.cring (s.cqTail % depth) (desc.reqId, phase depth s.cqTail)
    cqTail := s.cqTail + 1
    audit := s.audit.give desc.page }

/-- A call with the length of its frame and whether a page can be had, a round of its drain loop, and the
return of the i-th posted descriptor. -/
inductive Event where
  | tx (len : Nat) (page : Bool)
  | drain
  | complete (i : Nat)
  deriving DecidableEq

def step (ready : Bool) (s : Ena) : Event → Option Ena
  | .tx len page =>
    if s.draining then none
    else some (if accepts ready len page then enaEthTx depth s len else s)
  | .drain => if s.draining then some (enaTxDrain depth s) else none
  | .complete i =>
    match s.posted[i]? with
    | none => none
    | some desc => some (complete depth s i desc)

def start : Ena where
  sqTail := 0
  sqPhase := true
  cqHead := 0
  cqPhase := true
  ring := fun _ => ⟨0, 0, 0⟩
  txBufs := fun _ => none
  cring := fun _ => (0, false)
  draining := false
  posted := []
  cqTail := 0
  owner := fun _ => none
  audit := .start

def Booted : Prop := s = start

end Ena

/-! ## virtio-net -/

/-- What a descriptor points to: the header buffer of a slot or a page. -/
inductive Addr where
  | header (slot : Nat)
  | page (k : Nat)
  deriving DecidableEq

structure VringDesc where
  addr : Addr
  len : Nat
  flags : BitVec 16
  next : Nat
  deriving DecidableEq

/-- The transmit queue of g_eth0. The device has the posted chains, each with its head and its page. -/
structure Virtio where
  desc : Nat → VringDesc
  freeHead : Nat
  availRing : Nat → Nat
  availIdx : BitVec 16
  usedRing : Nat → Nat
  usedIdx : BitVec 16
  posted : List (Nat × Nat)
  owner : Nat → Option Nat
  audit : Audit

namespace Virtio

def hdrLen : Nat := 10

def pageSize : Nat := 4096

variable (num : Nat) (ready : Bool) (s : Virtio)

def accepts (len : Nat) (page : Bool) : Bool := ready && len != 0 && len ≤ pageSize && page

/-- The slot of the payload descriptor of the next send; that of its header is freeHead. -/
def pslot : Nat := (s.freeHead + 1) % num

def owners : List Nat := (s.owner s.freeHead).toList ++ (s.owner (s.pslot num)).toList

def virtioNetTxBytes (len : Nat) : Virtio :=
  let hslot := s.freeHead
  let pslot := s.pslot num
  let k := s.audit.pages
  let desc := update s.desc hslot ⟨.header hslot, hdrLen, 1, pslot⟩
  { s with
    desc := update desc pslot ⟨.page k, len, 0, 0⟩
    freeHead := (hslot + 2) % num
    availRing := update s.availRing (s.availIdx.toNat % num) hslot
    availIdx := s.availIdx + 1
    posted := s.posted ++ [(hslot, k)]
    owner := update (update s.owner hslot (some k)) pslot (some k)
    audit := s.audit.post (s.owners num) }

/-- virtio_net_irq goes through the used ring of the receive queue only, so nothing of the transmit queue changes. -/
def virtioNetIrq : Virtio := if ready then { s with audit := s.audit.look } else s

def complete (i : Nat) (chain : Nat × Nat) : Virtio :=
  { s with
    posted := s.posted.eraseIdx i
    usedRing := update s.usedRing (s.usedIdx.toNat % num) chain.1
    usedIdx := s.usedIdx + 1
    audit := s.audit.give chain.2 }

inductive Event where
  | tx (len : Nat) (page : Bool)
  | irq
  | complete (i : Nat)
  deriving DecidableEq

def step : Event → Option Virtio
  | .tx len page => some (if accepts ready len page then virtioNetTxBytes num s len else s)
  | .irq => some (virtioNetIrq ready s)
  | .complete i =>
    match s.posted[i]? with
    | none => none
    | some chain => some (complete num s i chain)

def start : Virtio where
  desc := fun _ => ⟨.page 0, 0, 0, 0⟩
  freeHead := 0
  availRing := fun _ => 0
  availIdx := 0
  usedRing := fun _ => 0
  usedIdx := 0
  posted := []
  owner := fun _ => none
  audit := .start

def Booted : Prop := s = start

end Virtio

end Kappara.Transmit
