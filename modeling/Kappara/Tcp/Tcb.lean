import Kappara.Lib.BlockChain
import Kappara.Net.Route

/-! The TCP control block and the segments it exchanges (uts/os/net/tcp.c).

Sequence numbers, windows and tick counts are 32-bit words with the source's
wrap-around arithmetic. The send buffer is the chain of message blocks; the
stream queue pointer of the source has no counterpart, what it is used for
appears as an output or as part of the environment of a step. -/

set_option autoImplicit false

namespace Kappara.Tcp

open BlockChain Net

abbrev Word := BitVec 32

inductive TcpState where
  | closed | bound | listen | synSent | synReceived | established
  | finWait1 | finWait2 | closeWait | lastAck | closing | timeWait
  deriving DecidableEq

structure Flags where
  fin : Bool
  syn : Bool
  rst : Bool
  psh : Bool
  ack : Bool
  urg : Bool
  deriving DecidableEq

def Flags.none : Flags := ⟨false, false, false, false, false, false⟩
def flagSyn : Flags := { Flags.none with syn := true }
def flagRst : Flags := { Flags.none with rst := true }
def flagAck : Flags := { Flags.none with ack := true }
def flagSynAck : Flags := { Flags.none with syn := true, ack := true }
def flagAckFin : Flags := { Flags.none with ack := true, fin := true }
def flagAckPsh : Flags := { Flags.none with ack := true, psh := true }

/-- A segment after the length, header and checksum tests, with the addresses IP reports for it. -/
structure Segment where
  srcIp : Ip
  dstIp : Ip
  srcPort : Port
  dstPort : Port
  seq : Word
  ack : Word
  flags : Flags
  window : BitVec 16
  options : List Byte
  payload : List Byte
  deriving DecidableEq

/-- The payload length as the source computes with it. -/
def Segment.len (seg : Segment) : Word := BitVec.ofNat 32 seg.payload.length

/-- A SYN waiting in a listener's backlog. The shift is at most 14, the bound the option parser
enforces. -/
structure Pending where
  remoteIp : Ip
  remotePort : Port
  peerMss : BitVec 16
  irs : Word
  peerWscale : Fin 15
  hasWscale : Bool
  deriving DecidableEq

structure Tcb where
  state : TcpState
  localPort : Port
  bound : Bool
  remoteIp : Ip
  remotePort : Port
  sndUna : Word
  sndNxt : Word
  sndIss : Word
  rcvNxt : Word
  rcvIrs : Word
  pendingQ : Fin 8 → Pending
  pendingHead : Fin 8
  pendingCount : Nat
  rtoExpires : Word
  rtoTicks : Word
  sendTick : Word
  pendingFlags : Flags
  retransmitCount : BitVec 8
  rttValid : Bool
  srttTicks : Word
  rttvarTicks : Word
  sndBuf : Chain Byte
  sndBufSeq : Word
  sndWnd : Word
  sndWndShift : Fin 15
  wsActive : Bool
  timeWaitExpires : Word
  cwnd : Word
  ssthresh : Word
  mss : BitVec 16
  inSend : Bool
  dupAckCount : BitVec 8

def tcpListenBacklog : Nat := 8
def tcpRtoMin : Word := 100
def tcpRtoMax : Word := 6000
def tcpRtoInitial : Word := 100
def tcpMaxRetransmits : BitVec 8 := 5
def tcpSndBufMax : Word := 65535
def tcpRcvWndMax : Nat := 65535
def tcpTimeWaitTicks : Word := 100
def tcpMssDefault : BitVec 16 := 536
def tcpInitialCwnd : Word := 1072
def tcpInitialSsthresh : Word := 65535

/-- tcp_qopen: a zeroed block with the initial congestion state. -/
def tcpQopen : Tcb where
  state := .closed
  localPort := 0#16
  bound := false
  remoteIp := 0#32
  remotePort := 0#16
  sndUna := 0#32
  sndNxt := 0#32
  sndIss := 0#32
  rcvNxt := 0#32
  rcvIrs := 0#32
  pendingQ := fun _ => ⟨0#32, 0#16, 0#16, 0#32, 0, false⟩
  pendingHead := 0
  pendingCount := 0
  rtoExpires := 0#32
  rtoTicks := 0#32
  sendTick := 0#32
  pendingFlags := Flags.none
  retransmitCount := 0#8
  rttValid := false
  srttTicks := 0#32
  rttvarTicks := 0#32
  sndBuf := []
  sndBufSeq := 0#32
  sndWnd := 0#32
  sndWndShift := 0
  wsActive := false
  timeWaitExpires := 0#32
  cwnd := tcpInitialCwnd
  ssthresh := tcpInitialSsthresh
  mss := tcpMssDefault
  inSend := false
  dupAckCount := 0#8

@[simps] def Tcb.setState (s : Tcb) (state : TcpState) : Tcb := { s with state := state }

@[simps] def Tcb.setInSend (s : Tcb) (inSend : Bool) : Tcb := { s with inSend := inSend }

@[simps] def Tcb.setRcvNxt (s : Tcb) (rcvNxt : Word) : Tcb := { s with rcvNxt := rcvNxt }

def Tcb.mssWord (s : Tcb) : Word := s.mss.setWidth 32

def Tcb.bufLen (s : Tcb) : Word := BitVec.ofNat 32 (size s.sndBuf)

def Tcb.inflight (s : Tcb) : Word := s.sndNxt - s.sndUna

def Tcb.fromPeer (s : Tcb) (seg : Segment) : Bool :=
  seg.srcIp == s.remoteIp && seg.srcPort == s.remotePort

/-- The states from SYN_SENT on. -/
def TcpState.live : TcpState → Bool
  | .closed | .bound | .listen => false
  | _ => true

/-- The states in which tcp_input_segment runs its common segment processing. -/
def TcpState.connected : TcpState → Bool
  | .established | .finWait1 | .finWait2 | .closeWait | .lastAck => true
  | _ => false

/-- The two states in which buffered data may be sent. -/
def TcpState.sending : TcpState → Bool
  | .established | .closeWait => true
  | _ => false

end Kappara.Tcp
