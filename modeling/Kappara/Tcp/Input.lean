import Kappara.Tcp.Output

/-! Inbound segments (tcp_input_segment of uts/os/net/tcp.c).

Processing is cut at every call of ip_send. A pass runs from one such call to
the next: it yields the block as it stands, what was sent and delivered, and
the frame that waits for ip_send to return. Segments that arrive while a frame
waits are processed first, on the block the frame will find when it goes on. -/

set_option autoImplicit false

namespace Kappara.Tcp

open BlockChain Net

inductive DisconReason where
  | protoerr | reset | timeout
  deriving DecidableEq

/-- Messages to the user of the stream. -/
inductive Ind where
  | bindAck (port : Port)
  | bindNak
  | connCon (ip : Ip) (port : Port)
  | connInd (ip : Ip) (port : Port)
  | dataInd (bytes : List Byte)
  | ordrelInd
  | disconInd (reason : DisconReason)
  deriving DecidableEq

/-- Where tcp_try_send_pending returns to. -/
inductive After where
  | ret
  | input (seg : Segment)
  deriving DecidableEq

/-- A call of ip_send that has not returned, named by what follows it. -/
inductive Frame where
  | ret
  | trySend (gathered : Nat) (after : After)
  | fastRetransmit (seg : Segment)
  | connCon (ip : Ip) (port : Port)
  | dataAck (seg : Segment)
  | finAck
  | reject
  | rtx (saved : BitVec 8) (now : Word)
  deriving DecidableEq

/-- The outcome of one pass: what went up, in order, and the segment in whose ip_send the pass now
waits, if it did not return. -/
structure Res where
  tcb : Tcb
  ups : List Ind
  sent : Option (Segment × Frame)

variable (net : Interfaces) (env : Env) (s : Tcb) (seg : Segment)

def Res.ret (ups : List Ind) : Res := ⟨s, ups, none⟩

/-- Wait in ip_send when the segment was taken; otherwise go on at once. -/
def Res.send (ups : List Ind) (s : Tcb) (emitted : Option Segment) (frame : Frame) (next : Res) : Res :=
  match emitted with
  | some seg => ⟨s, ups, some (seg, frame)⟩
  | none => ⟨next.tcb, ups ++ next.ups, next.sent⟩

def reply (ind : Ind) : List Ind := if env.alloc .ind then [ind] else []

def replyDataInd (bytes : List Byte) : List Ind :=
  if env.alloc .dataInd then [.dataInd bytes] else []

structure SynOptions where
  mss : BitVec 16
  wscale : Fin 15
  hasWscale : Bool
  deriving DecidableEq

def wscaleClamp (shift : Byte) : Fin 15 := ⟨min shift.toNat 14, by omega⟩

/-- The option walk, with the bytes left and a bound on the options that can still follow. -/
def parseOptions : Nat → List Byte → SynOptions → SynOptions
  | 0, _, o => o
  | _ + 1, [], o => o
  | fuel + 1, kind :: rest, o =>
    if kind = 0#8 then o
    else if kind = 1#8 then parseOptions fuel rest o
    else
      match rest with
      | [] => o
      | len :: body =>
        if len.toNat < 2 ∨ body.length + 2 < len.toNat then o
        else
          let o :=
            if kind = 2#8 ∧ len = 4#8 then
              { o with mss := (body.getD 0 0#8).setWidth 16 <<< 8 ||| (body.getD 1 0#8).setWidth 16 }
            else if kind = 3#8 ∧ len = 3#8 then
              { o with wscale := wscaleClamp (body.getD 0 0#8), hasWscale := true }
            else o
          parseOptions fuel (body.drop (len.toNat - 2)) o

def tcpParseSynOptions (opts : List Byte) : SynOptions := parseOptions opts.length opts ⟨0#16, 0, false⟩

/-- The peer's window is taken from every segment that passed the port filter, before the connection
is compared. -/
def trackWindow : Tcb :=
  let w : Word := seg.window.setWidth 32
  { s with sndWnd := if seg.flags.syn then w else w <<< s.sndWndShift.val }

-- The send window the segment announces.
def announced : Word :=
  if seg.flags.syn then seg.window.setWidth 32 else seg.window.setWidth 32 <<< s.sndWndShift.val

/-- tcp_send_segment as the last act of a handler. -/
def sendLast (flags : Flags) : Res :=
  let (s', emitted) := tcpSendSegment net env .control s flags []
  .send [] s' emitted .ret (.ret s' [])

def finState : Tcb :=
  match s.state with
  | .established => s.setState .closeWait
  | .finWait1 => s.setState .closing
  | .finWait2 => tcpEnterTimeWait env s
  | _ => s

def inputFin : Res :=
  if seg.flags.fin ∧ seg.seq + seg.len = s.rcvNxt then
    let s := finState env (s.setRcvNxt (s.rcvNxt + 1))
    let (s', emitted) := tcpSendSegment net env .ackFin s flagAck []
    .send [] s' emitted .finAck (.ret s' (reply env .ordrelInd))
  else .ret s []

def inputData : Res :=
  if seg.payload ≠ [] ∧ seg.seq = s.rcvNxt ∧ s.state.sending ∧ env.alloc .data then
    let s := s.setRcvNxt (s.rcvNxt + seg.len)
    let (s', emitted) := tcpSendSegment net env .ackData s flagAck []
    .send (replyDataInd env seg.payload) s' emitted (.dataAck seg) (inputFin net env s' seg)
  else inputFin net env s seg

/-- The effects of a covered FIN on the state. -/
def ackState : Tcb :=
  if s.sndUna = s.sndNxt then
    match s.state with
    | .finWait1 => (tcpCancelRto (sampleRtt env s)).setState .finWait2
    | .closing => tcpEnterTimeWait env (sampleRtt env s)
    | .lastAck => (tcpCancelRto (sampleRtt env s)).setState .closed
    | _ => s
  else s

def afterAck : Res :=
  inputData net env (ackState env s) seg

def continueAfter : After → Res
  | .ret => .ret s []
  | .input seg => afterAck net env s seg

/-- The loop of tcp_try_send_pending, from its head to the next emission or its end. -/
def trySendLoop (after : After) : Res :=
  let done := continueAfter net env (s.setInSend false) after
  match trySendChunk s with
  | none => done
  | some data =>
    .send [] s (tcpEmitSegment net env .fresh s s.sndNxt flagAckPsh data) (.trySend data.length after) done

def tcpTrySendPending (after : After) : Res :=
  if s.inSend || !s.state.sending then continueAfter net env s after
  else trySendLoop net env (s.setInSend true) after

/-- Trim the acknowledged bytes and move the timer with them. -/
def ackTrim (acked : Word) : Tcb :=
  if s.sndBuf = [] then s
  else if s.bufLen ≤ acked then
    tcpCancelRto (sampleRtt env { s with sndBuf := [], sndBufSeq := 0#32 })
  else
    let sentLeft := s.sndNxt - s.sndBufSeq - acked
    let s := { s with sndBuf := trim s.sndBuf acked.toNat, sndBufSeq := s.sndBufSeq + acked }
    if 0#32 < sentLeft then
      { s with rtoExpires := env.tick + s.rtoTicks, sendTick := env.tick, retransmitCount := 0#8 }
    else tcpCancelRto s

/-- An acknowledgement that advances snd_una, up to the attempt to send more. -/
def ackAdvance (ack : Word) : Tcb :=
  let acked := ack - s.sndUna
  let s := { s with sndUna := ack, cwnd := if 3#8 ≤ s.dupAckCount then s.ssthresh else s.cwnd,
                    dupAckCount := 0#8 }
  ackTrim env (tcpCwndOnAck s) acked

/-- At most one segment from the front block of the send buffer. -/
def headChunk : List Byte := (s.sndBuf.headD []).take s.mss.toNat

def countDupAck : Tcb := { s with dupAckCount := s.dupAckCount + 1 }

/-- Fast recovery: half the flight, inflated by the three segments that left the network. -/
def enterRecovery : Tcb :=
  { s with ssthresh := halfFlight s, cwnd := halfFlight s + 3 * s.mssWord }

def inflateCwnd : Tcb := { s with cwnd := s.cwnd + s.mssWord }

def fastRetransmit : Res :=
  .send [] s (tcpEmitSegment net env .again s s.sndBufSeq flagAckPsh (headChunk s)) (.fastRetransmit seg)
    (afterAck net env s seg)

def inputDupAck : Res :=
  let s := countDupAck s
  if s.dupAckCount = 3#8 then fastRetransmit net env (enterRecovery s) seg
  else if 3#8 < s.dupAckCount then tcpTrySendPending net env (inflateCwnd s) (.input seg)
  else afterAck net env s seg

def advances : Bool := 0 < (seg.ack - s.sndUna).toInt

def isDupAck : Bool :=
  seg.ack == s.sndUna && seg.payload.isEmpty && !seg.flags.syn && !seg.flags.fin && !s.sndBuf.isEmpty
    && s.sndNxt != s.sndUna

def inputConnected : Res :=
  if !s.fromPeer seg then .ret s []
  else if seg.flags.rst then .ret (s.setState .closed) (reply env (.disconInd .reset))
  else if seg.flags.ack then
    if advances s seg then tcpTrySendPending net env (ackAdvance env s seg.ack) (.input seg)
    else if isDupAck s seg then inputDupAck net env s seg
    else afterAck net env s seg
  else inputData net env s seg

/-- The block once a SYN-ACK has completed the active open. -/
def connectBlock : Tcb :=
  let opts := tcpParseSynOptions seg.options
  let s := tcpNegotiateMss net (tcpCancelRto (sampleRtt env s)) opts.mss
  { s with
    sndWndShift := if opts.hasWscale then opts.wscale else 0
    wsActive := opts.hasWscale && s.wsActive
    rcvIrs := seg.seq
    rcvNxt := seg.seq + 1
    sndUna := seg.ack
    state := .established }

def inputSynSent : Res :=
  if seg.flags.syn ∧ seg.flags.ack ∧ seg.ack = s.sndNxt ∧ s.fromPeer seg then
    let (s', emitted) := tcpSendSegment net env .control (connectBlock net env s seg) flagAck []
    .send [] s' emitted (.connCon seg.srcIp seg.srcPort)
      (.ret s' (reply env (.connCon seg.srcIp seg.srcPort)))
  else .ret s []

def inputListen : Res :=
  if seg.flags.syn ∧ s.pendingCount < tcpListenBacklog then
    let opts := tcpParseSynOptions seg.options
    let slot : Fin 8 := s.pendingHead + Fin.ofNat 8 s.pendingCount
    let entry : Pending := ⟨seg.srcIp, seg.srcPort, opts.mss, seg.seq, opts.wscale, opts.hasWscale⟩
    .ret { s with
      pendingQ := fun i => if i = slot then entry else s.pendingQ i
      pendingCount := s.pendingCount + 1 } (reply env (.connInd seg.srcIp seg.srcPort))
  else .ret s []

/-- The block once the acknowledgement of its SYN has completed the passive open. -/
def establishBlock : Tcb :=
  { tcpCancelRto (sampleRtt env s) with sndUna := seg.ack, state := .established }

def inputSynReceived : Res :=
  if seg.flags.ack ∧ seg.ack = s.sndNxt ∧ s.fromPeer seg then
    .ret (establishBlock env s seg) (reply env (.connCon seg.srcIp seg.srcPort))
  else .ret s []

def inputTimeWait : Res :=
  if seg.flags.fin ∧ s.fromPeer seg ∧ seg.seq + 1 = s.rcvNxt then
    sendLast net env s flagAck
  else .ret s []

/-- tcp_input_segment on the block the segment is for, after the port filter and the redirection to
the child of a listener. -/
def inputState : Res :=
  match s.state with
  | .closed => .ret s []
  | .bound => .ret s []
  | .listen => inputListen env s seg
  | .synSent => inputSynSent net env s seg
  | .synReceived => inputSynReceived env s seg
  | .established => inputConnected net env s seg
  | .finWait1 => inputConnected net env s seg
  | .finWait2 => inputConnected net env s seg
  | .closeWait => inputConnected net env s seg
  | .lastAck => inputConnected net env s seg
  | .closing => .ret s []
  | .timeWait => inputTimeWait net env s seg

def tcpInput : Res :=
  inputState net env (if s.state = .listen then s else trackWindow s seg) seg

end Kappara.Tcp
