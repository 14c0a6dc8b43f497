import Kappara.Tcp.Tcb

/-! Timers, congestion window and segment emission (uts/os/net/tcp.c).

A call of ip_send may run the whole receive path before it returns, because the
loopback interface delivers synchronously. Emission is therefore split from
what follows it: the functions here say which segment, if any, reaches the
interface, and how the block looks at that moment. -/

set_option autoImplicit false

namespace Kappara.Tcp

open BlockChain Net

/-- The places where one pass through the module allocates or sends. -/
inductive Site where
  | fresh | again | ackData | ackFin | control | data | dataInd | ind
  deriving DecidableEq

/-- What a pass meets outside the block: the tick counter, the bytes queued at the stream head, which
allocations succeed, and which packets the layers below take. -/
structure Env where
  tick : Word
  queued : Nat
  alloc : Site → Bool
  taken : Site → Bool

variable (net : Interfaces) (env : Env) (site : Site) (s : Tcb) (flags : Flags)

def tcpArmRto : Tcb :=
  let ticks := if s.rtoTicks = 0#32 then tcpRtoInitial else s.rtoTicks
  { s with
    rtoTicks := ticks
    rtoExpires := env.tick + ticks
    sendTick := env.tick
    pendingFlags := flags
    retransmitCount := 0#8 }

def tcpCancelRto : Tcb := { s with rtoExpires := 0#32 }

def tcpEnterTimeWait : Tcb :=
  tcpCancelRto { s with state := .timeWait, timeWaitExpires := env.tick + tcpTimeWaitTicks }

def clampRto (rto : Word) : Word :=
  let rto := if rto < tcpRtoMin then tcpRtoMin else rto
  if tcpRtoMax < rto then tcpRtoMax else rto

def tcpUpdateRtt (sample : Word) : Tcb :=
  let (srtt, var) :=
    if s.rttValid then
      let d := sample - s.srttTicks
      let ad := if d.toInt < 0 then -d else d
      ((7 * s.srttTicks + sample) >>> 3, (3 * s.rttvarTicks + ad) >>> 2)
    else (sample, sample / 2)
  { s with
    srttTicks := srtt
    rttvarTicks := var
    rttValid := true
    rtoTicks := clampRto (srtt + 4 * var) }

/-- Karn's rule: a round trip is sampled only when nothing was retransmitted. -/
def sampleRtt : Tcb :=
  if s.retransmitCount = 0#8 then tcpUpdateRtt s (env.tick - s.sendTick) else s

def tcpLocalMss (dst : Ip) : BitVec 16 :=
  match netifRoute net dst with
  | none => tcpMssDefault
  | some nif =>
    if nif.mtu ≤ 40 then tcpMssDefault
    else
      let mss := nif.mtu - 40
      if 0xffff < mss then 0xffff else mss.setWidth 16

def tcpRfc6928Iw (mss : BitVec 16) : Word :=
  let ten : Word := 10 * mss.setWidth 32
  let two : Word := 2 * mss.setWidth 32
  let low := if 14600 < two then two else 14600
  if ten < low then ten else low

def tcpNegotiateMss (peerMss : BitVec 16) : Tcb :=
  let eff := tcpLocalMss net s.remoteIp
  let eff := if peerMss ≠ 0#16 ∧ peerMss < eff then peerMss else eff
  let eff := if eff < tcpMssDefault then tcpMssDefault else eff
  { s with mss := eff, cwnd := tcpRfc6928Iw eff }

def tcpRcvWindow : BitVec 16 :=
  if tcpRcvWndMax ≤ env.queued then 0#16 else BitVec.ofNat 16 (tcpRcvWndMax - env.queued)

/-- The options of a segment that carries SYN: MSS, then NOP and a zero window scale where active. -/
def synOptions : List Byte :=
  let mss := tcpLocalMss net s.remoteIp
  [2#8, 4#8, (mss >>> 8).setWidth 8, mss.setWidth 8] ++ if s.wsActive then [1#8, 3#8, 3#8, 0#8] else []

def buildSegment (seq : Word) (flags : Flags) (body : List Byte) :
    Segment where
  srcIp := ipRouteSrc net s.remoteIp
  dstIp := s.remoteIp
  srcPort := s.localPort
  dstPort := s.remotePort
  seq := seq
  ack := s.rcvNxt
  flags := flags
  window := tcpRcvWindow env
  options := if flags.syn then synOptions net s else []
  payload := body

def tcpHdrLenMin : Nat := 20

def Segment.wireLen (seg : Segment) : Word :=
  BitVec.ofNat 32 (tcpHdrLenMin + seg.options.length + seg.payload.length)

/-- ip_send: the segment reaches the interface unless a check or a layer below refuses it. -/
def ipSend (seg : Segment) : Option Segment :=
  if ipCarries net seg.dstIp seg.wireLen && env.taken site then some seg else none

def tcpEmitSegment (seq : Word) (flags : Flags)
    (body : List Byte) : Option Segment :=
  if ipRouteSrc net s.remoteIp = 0#32 then none
  else if env.alloc site then ipSend net env site (buildSegment net env s seq flags body)
  else none

/-- The block after tcp_send_segment has built its segment and before ip_send runs. -/
def countSegment (payload : List Byte) : Tcb :=
  let s := if flags.syn then { s with sndNxt := s.sndNxt + 1 } else s
  let s := if flags.fin then { s with sndNxt := s.sndNxt + 1 } else s
  let s := { s with sndNxt := s.sndNxt + BitVec.ofNat 32 payload.length }
  if flags.syn || flags.fin || 0 < payload.length then tcpArmRto env s flags else s

def tcpSendSegment
    (payload : List Byte) : Tcb × Option Segment :=
  if ipRouteSrc net s.remoteIp = 0#32 then (s, none)
  else if env.alloc site then
    (countSegment env s flags payload, ipSend net env site (buildSegment net env s s.sndNxt flags payload))
  else (s, none)

def tcpCwndOnAck : Tcb :=
  if s.cwnd < s.ssthresh then { s with cwnd := s.cwnd + s.mssWord }
  else
    let incr := (s.mssWord * s.mssWord + s.cwnd / 2) / s.cwnd
    { s with cwnd := s.cwnd + if incr = 0#32 then 1 else incr }

def halfFlight : Word :=
  let half := s.inflight / 2
  if half < 2 * s.mssWord then 2 * s.mssWord else half

def tcpCwndOnRto : Tcb := { s with ssthresh := halfFlight s, cwnd := s.mssWord }

def minWord (a b : Word) : Word := if a < b then a else b

/-- What is left of a window beyond the bytes in flight. -/
def windowRoom (window inflight : Word) : Word := if inflight < window then window - inflight else 0#32

/-- One round of tcp_try_send_pending up to the emission: the bytes to send, or none where the loop
ends. -/
def trySendChunk : Option (List Byte) :=
  if s.sndBuf = [] then none
  else
    let sent := s.sndNxt - s.sndBufSeq
    if s.bufLen ≤ sent then none
    else
      let room := minWord (windowRoom s.cwnd s.inflight) (windowRoom s.sndWnd s.inflight)
      if room = 0#32 then none
      else
        let chunk := minWord (s.bufLen - sent) room
        let chunk := if s.mssWord < chunk then s.mssWord else chunk
        some (gather s.sndBuf sent.toNat chunk.toNat)

def trySendCount (gathered : Nat) : Tcb :=
  let s := { s with sndNxt := s.sndNxt + BitVec.ofNat 32 gathered }
  if s.rtoExpires = 0#32 then tcpArmRto env s flagAckPsh else s

end Kappara.Tcp
