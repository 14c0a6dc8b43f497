import Kappara.Streams.Msg
import Kappara.Tcp.Wire

/-! The receive side of IP (ip_rput, ip_demux and build_unitdata_ind of
uts/os/net/ipv4.c) and what the modules above it do with a datagram (the
IP_T_UNITDATA_IND branches of tcp_rq_putp, udp_rq_putp and icmp_rq_putp).

Every stream bound to the protocol gets an indication with the body behind it:
the last one the message itself, the others copies that share its data blocks.
The put procedure of a stream runs before the next stream is served. A call is
recorded with what its body looks like at that moment. -/

set_option autoImplicit false

namespace Kappara.Streams

/-- The length the modules compute, as an unsigned 32-bit number. -/
def Mblk.len (mb : Mblk) : BitVec 32 := BitVec.ofNat 32 mb.wptr - BitVec.ofNat 32 mb.rptr

def Heap.content (h : Heap) (d : Addr) : Nat → Byte :=
  match ((h.dblks.cells d).bind Dblk.base).bind h.bufs.cells with
  | none => fun _ => 0#8
  | some bytes => bytes

def Heap.load (h : Heap) (mb : Mblk) (i : Nat) : Byte := h.content mb.datap (mb.rptr + i)

def Heap.store (h : Heap) (d : Addr) (bytes : Nat → Byte) : Heap :=
  match (h.dblks.cells d).bind Dblk.base with
  | none => h
  | some b =>
    match h.bufs.cells b with
    | none => h
    | some _ => { h with bufs := h.bufs.set b bytes }

def Heap.advance (h : Heap) (mp : Addr) (n : Nat) : Heap :=
  match h.mblks.cells mp with
  | none => h
  | some mb => { h with mblks := h.mblks.set mp { mb with rptr := mb.rptr + n } }

end Kappara.Streams

namespace Kappara.Net

open Streams Tcp

/-- The counters of net_drop_counts that IP increments. -/
inductive Drop where
  | ipRunt
  | ipBadver
  | ipBadihl
  | ipBadlen
  | ipBadcsum
  deriving DecidableEq

abbrev Drops := Drop → BitVec 64

def Drops.count (drops : Drops) (drop : Drop) : Drops := Function.update drops drop (drops drop + 1#64)

/-- The checksum of a range of bytes. Two rounds fold every carry of a 32-bit sum. -/
def ipChecksum (bytes : List Byte) : BitVec 16 := ~~~ (foldCarry (foldCarry (sumWords bytes))).setWidth 16

def front (bytes : Nat → Byte) (n : Nat) : List Byte := (List.range n).map bytes

section

variable (hdr : Nat → Byte)

def ihlBytes : Nat := (hdr 0 &&& 0xf#8).toNat * 4

def totalLen : Nat := (ntohs16 (hdr 2) (hdr 3)).toNat

def protoOf : Byte := hdr 9

def srcIp : Ip := ntohl32 (hdr 12) (hdr 13) (hdr 14) (hdr 15)

def dstIp : Ip := ntohl32 (hdr 16) (hdr 17) (hdr 18) (hdr 19)

end

/-- The tests of the header before the pad is trimmed. -/
def headerFault (len : Nat) (hdr : Nat → Byte) : Option Drop :=
  if len < ipHdrLen.toNat then some .ipRunt
  else if hdr 0 >>> 4 ≠ 4#8 then some .ipBadver
  else if ihlBytes hdr < ipHdrLen.toNat ∨ len < ihlBytes hdr then some .ipBadihl
  else if len < totalLen hdr then some .ipBadlen
  else if totalLen hdr < ipHdrLen.toNat then some .ipBadlen
  else none

/-- The module on a stream, with what its put procedure compares a datagram with. -/
inductive Module where
  | tcp
  | udp (localPort : Port)
  | icmp (icmpId : BitVec 16)
  deriving DecidableEq

/-- What becomes of a body that a module passes on: whether it is taken or freed there, and the bytes
that are written in front of it when headers are prepended. -/
structure Serve where
  taken : Bool
  below : Nat → Byte

def udpHdrLen : Nat := 8

def icmpHdrLen : Nat := 8

def icmpTypeEchoReply : Byte := 0#8

def icmpTypeEchoRequest : Byte := 8#8

def udpAccepts (localPort : Port) (len : Nat) (hdr : Nat → Byte) : Bool :=
  let ulen := (ntohs16 (hdr 4) (hdr 5)).toNat
  udpHdrLen ≤ len && ulen ≤ len && udpHdrLen ≤ ulen && ntohs16 (hdr 2) (hdr 3) == localPort

def icmpAccepts (icmpId : BitVec 16) (len : Nat) (hdr : Nat → Byte) : Bool :=
  icmpHdrLen ≤ len && ipChecksum (front hdr len) == 0#16 && ntohs16 (hdr 4) (hdr 5) == icmpId

/-- The bytes of an echo request turned into the reply. -/
def echoReply (len : Nat) (hdr : Nat → Byte) : Nat → Byte :=
  let blank := Function.update (Function.update (Function.update hdr 0 icmpTypeEchoReply) 2 0#8) 3 0#8
  let cs := ipChecksum (front blank len)
  Function.update (Function.update blank 2 ((cs >>> 8).setWidth 8)) 3 (cs.setWidth 8)

def Module.input (m : Module) (serve : Serve) (h : Heap) (body : Addr) : Except Fault Heap :=
  match h.mblks.cells body with
  | none => .error .freed
  | some mb =>
    let len := mb.len.toNat
    let hdr := h.load mb
    match m with
    | .tcp => freemsg h (some body)
    | .udp localPort =>
      if udpAccepts localPort len hdr then
        let h := h.advance body udpHdrLen
        if serve.taken then .ok h else freemsg h (some body)
      else freemsg h (some body)
    | .icmp icmpId =>
      if icmpAccepts icmpId len hdr ∧ hdr 0 = icmpTypeEchoRequest then
        let h := h.store mb.datap fun i => if i < mb.rptr then serve.below i else echoReply len hdr (i - mb.rptr)
        if serve.taken then .ok h else freemsg h (some body)
      else freemsg h (some body)

def Module.putp (m : Module) (serve : Serve) (h : Heap) (mp : Addr) : Except Fault Heap :=
  match h.cont mp with
  | none => freemsg h (some mp)
  | some body =>
    match freeb (h.setCont (some mp) none) (some mp) with
    | .error fault => .error fault
    | .ok h => m.input serve h body

/-- The call of a put procedure: the stream and the body it is given, with the bytes from b_rptr on. -/
structure Call where
  rq : Nat
  body : Mblk
  dblk : Dblk
  bytes : Nat → Byte

/-- The answers of the allocators and of the put procedure for one match, which is named by its position. -/
structure Share where
  copy : List Addr
  ind : Grant
  serve : Serve

/-- The prim of struct ip_unitdata_ind. -/
def ipTUnitdataInd : Byte := 7#8

/-- The bytes of struct ip_unitdata_ind; the addresses are in host order, least byte first. -/
def indBytes (proto : Byte) (src dst : Ip) : List Byte :=
  [ipTUnitdataInd, proto, 0#8, 0#8] ++ (ipBytes src).reverse ++ (ipBytes dst).reverse

def buildUnitdataInd (h : Heap) (proto : Byte) (src dst : Ip) (grant : Grant) : Except Fault (Heap × Option Addr) :=
  let ind := indBytes proto src dst
  match allocb h ind.length grant with
  | .error fault => .error fault
  | .ok (h, none) => .ok (h, none)
  | .ok (h, some mp) =>
    match fill h mp mProto fun i => ind.getD i (grant.bytes i) with
    | .error fault => .error fault
    | .ok h =>
      match edit h mp none 0 ind.length with
      | .error fault => .error fault
      | .ok h => .ok (h, some mp)

/-- Puts a body behind its indication and calls the put procedure. -/
def deliver (m : Module) (serve : Serve) (h : Heap) (rq : Nat) (ind body : Addr) : Except Fault (Heap × Call) :=
  let h := h.setCont (some ind) (some body)
  match h.mblks.cells body with
  | none => .error .freed
  | some mb =>
    match h.dblks.cells mb.datap with
    | none => .error .freed
    | some db =>
      match m.putp serve h ind with
      | .error fault => .error fault
      | .ok h' => .ok (h', ⟨rq, mb, db, h.load mb⟩)

section Demux

variable (modules : Nat → Module) (shares : Nat → Share) (hdr : Nat → Byte) (body : Addr)

/-- The matches that get a copy. -/
def copyLoop : Nat → List Nat → Heap → Except Fault (Heap × List Call)
  | _, [], h => .ok (h, [])
  | j, rq :: rest, h =>
    match dupmsg h (some body) (shares j).copy with
    | .error fault => .error fault
    | .ok (h, bodyCpy) =>
      match buildUnitdataInd h (protoOf hdr) (srcIp hdr) (dstIp hdr) (shares j).ind with
      | .error fault => .error fault
      | .ok (h, ind) =>
        match ind, bodyCpy with
        | some ind, some bodyCpy =>
          match deliver (modules rq) (shares j).serve h rq ind bodyCpy with
          | .error fault => .error fault
          | .ok (h, call) =>
            match copyLoop (j + 1) rest h with
            | .error fault => .error fault
            | .ok (h, calls) => .ok (h, call :: calls)
        | _, _ =>
          match freemsg h bodyCpy with
          | .error fault => .error fault
          | .ok h =>
            match freemsg h ind with
            | .error fault => .error fault
            | .ok h => copyLoop (j + 1) rest h

/-- The match that gets the message itself. -/
def lastMatch (j rq : Nat) (h : Heap) : Except Fault (Heap × List Call) :=
  match buildUnitdataInd h (protoOf hdr) (srcIp hdr) (dstIp hdr) (shares j).ind with
  | .error fault => .error fault
  | .ok (h, none) =>
    match freemsg h (some body) with
    | .error fault => .error fault
    | .ok h => .ok (h, [])
  | .ok (h, some ind) =>
    match deliver (modules rq) (shares j).serve h rq ind body with
    | .error fault => .error fault
    | .ok (h, call) => .ok (h, [call])

def ipDemuxPut (rqs : List Nat) (h : Heap) : Except Fault (Heap × List Call) :=
  match rqs.getLast? with
  | none =>
    match freemsg h (some body) with
    | .error fault => .error fault
    | .ok h => .ok (h, [])
  | some rq =>
    match copyLoop modules shares hdr body 0 rqs.dropLast h with
    | .error fault => .error fault
    | .ok (h, calls) =>
      match lastMatch modules shares hdr body (rqs.length - 1) rq h with
      | .error fault => .error fault
      | .ok (h, calls') => .ok (h, calls ++ calls')

end Demux

structure Received where
  heap : Heap
  drops : Drops
  calls : List Call

def discard (h : Heap) (drops : Drops) (mp : Addr) : Except Fault Received :=
  match freemsg h (some mp) with
  | .error fault => .error fault
  | .ok h => .ok ⟨h, drops, []⟩

/-- Cuts off what follows the datagram in its first block, and the rest of the chain with it. -/
def trimPad (h : Heap) (mp : Addr) (mb : Mblk) (len total : Nat) : Except Fault Heap :=
  if total < len then
    match freemsg { h with mblks := h.mblks.set mp { mb with wptr := mb.rptr + total } } mb.cont with
    | .error fault => .error fault
    | .ok h => .ok (h.setCont (some mp) none)
  else .ok h

def ipRput (modules : Nat → Module) (uppers : Uppers) (shares : Nat → Share) (h : Heap) (drops : Drops)
    (mp : Option Addr) : Except Fault Received :=
  match mp with
  | none => .ok ⟨h, drops, []⟩
  | some mp =>
    match h.mblks.cells mp with
    | none => .error .freed
    | some mb =>
      match h.dblks.cells mb.datap with
      | none => .error .freed
      | some db =>
        if db.type ≠ mData then discard h drops mp
        else
          let len := mb.len.toNat
          let hdr := h.load mb
          match headerFault len hdr with
          | some drop => discard h (drops.count drop) mp
          | none =>
            match trimPad h mp mb len (totalLen hdr) with
            | .error fault => .error fault
            | .ok h =>
              if ipChecksum (front hdr (ihlBytes hdr)) ≠ 0#16 then discard h (drops.count .ipBadcsum) mp
              else
                match ipDemuxPut modules shares hdr mp (ipDemux uppers (protoOf hdr)) (h.advance mp (ihlBytes hdr)) with
                | .error fault => .error fault
                | .ok (h, calls) => .ok ⟨h, drops, calls⟩

end Kappara.Net
