import Kappara.Tcp.Input

/-! User primitives, timer ticks and runs of one control block
(uts/os/net/tcp.c).

A configuration is the block and the stack of ip_send calls that have not
returned. User primitives and ticks start only when nothing is pending; a
segment may arrive at any moment, which is how the synchronous loopback shows. -/

set_option autoImplicit false

namespace Kappara.Tcp

open BlockChain Net

/-- How IP answers a bind request; lost when the answer could not be allocated. -/
inductive BindAnswer where
  | ack | nak | lost
  deriving DecidableEq

section

variable (net : Interfaces) (env : Env) (s : Tcb)

def handleBindReq (port : Port) (answer : BindAnswer) : Res :=
  if s.bound then .ret s (reply env .bindNak)
  else
    let s := { s with localPort := port, state := .bound }
    match answer with
    | .ack => .ret { s with bound := true } (reply env (.bindAck port))
    | .nak => .ret { s with bound := false, localPort := 0#16, state := .closed } (reply env .bindNak)
    | .lost => .ret s []

def protoerr : Res := .ret s (reply env (.disconInd .protoerr))

/-- The block of handle_conn_req before its SYN is built. -/
def openBlock (ip : Ip) (port : Port) (iss : Word) : Tcb :=
  { s with
    remoteIp := ip
    remotePort := port
    sndIss := iss
    sndUna := iss
    sndNxt := iss
    state := .synSent
    wsActive := true }

def handleConnReq (ip : Ip) (port : Port) (iss : Word) : Res :=
  if s.state = .bound then
    sendLast net env (openBlock s ip port iss) flagSyn
  else protoerr env s

def handleListenReq : Res :=
  if s.state = .bound then .ret (s.setState .listen) [] else protoerr env s

/-- The child of tcp_accept_into before its SYN-ACK is built. -/
def acceptBlock (child : Tcb) (lport : Port) (entry : Pending) (iss : Word) : Tcb :=
  let child := { child with
    localPort := lport
    remoteIp := entry.remoteIp
    remotePort := entry.remotePort
    rcvIrs := entry.irs
    rcvNxt := entry.irs + 1
    sndIss := iss
    sndUna := iss
    sndNxt := iss
    state := .synReceived
    cwnd := tcpInitialCwnd
    ssthresh := tcpInitialSsthresh }
  { tcpNegotiateMss net child entry.peerMss with
    wsActive := entry.hasWscale
    sndWndShift := if entry.hasWscale then entry.peerWscale else 0 }

def acceptChild (child : Tcb) (lport : Port) (entry : Pending) (iss : Word) : Res :=
  sendLast net env (acceptBlock net child lport entry iss) flagSynAck

/-- The listener's half: the head of the backlog and the listener without it. -/
def popPending : Pending × Tcb :=
  (s.pendingQ s.pendingHead,
    { s with pendingHead := s.pendingHead + 1, pendingCount := s.pendingCount - 1 })

def handleOrdrelReq : Res :=
  match s.state with
  | .established =>
    sendLast net env (s.setState .finWait1) flagAckFin
  | .closeWait =>
    sendLast net env (s.setState .lastAck) flagAckFin
  | _ => protoerr env s

/-- The reject loop of T_DISCON_REQ on a listener. One round resets the head of the backlog; the head
is removed only after ip_send returned. The bound is the backlog's size. -/
def rejectLoop (net : Interfaces) (env : Env) : Nat → Tcb → Res
  | 0, s => .ret { s with remoteIp := 0#32, remotePort := 0#16 } []
  | fuel + 1, s =>
    if s.pendingCount = 0 then .ret { s with remoteIp := 0#32, remotePort := 0#16 } []
    else
      let entry := s.pendingQ s.pendingHead
      let s := { s with remoteIp := entry.remoteIp, remotePort := entry.remotePort }
      let (s', emitted) := tcpSendSegment net env .control s flagRst []
      .send [] s' emitted .reject (rejectLoop net env fuel (popPending s').2)

def handleDisconReq : Res :=
  match s.state with
  | .synSent | .synReceived | .established | .finWait1 | .finWait2 | .closeWait | .lastAck =>
    sendLast net env (s.setState .closed) flagRst
  | .listen => if 0 < s.pendingCount then rejectLoop net env s.pendingCount s else .ret s []
  | _ => .ret s []

/-- The data blocks of a T_DATA_REQ; a message is far smaller than the signed range. -/
structure Payload where
  chain : Chain Byte
  small : size chain < 2 ^ 31
  deriving DecidableEq

theorem one_small : size [[1#8]] < 2 ^ 31 := by decide

theorem two_small : size [[2#8]] < 2 ^ 31 := by decide

theorem oneTwo_small : size [[1#8, 2#8]] < 2 ^ 31 := by decide

/-- The append of handle_data_req. -/
def appendBuf (payload : Chain Byte) : Tcb :=
  if s.sndBuf = [] then { s with sndBufSeq := s.sndNxt, sndBuf := payload }
  else { s with sndBuf := s.sndBuf ++ payload }

def handleDataReq (payload : Payload) : Res :=
  if s.state = .established then
    if size payload.chain = 0 then .ret s []
    else if tcpSndBufMax < s.bufLen + BitVec.ofNat 32 (size payload.chain) then protoerr env s
    else tcpTrySendPending net env (appendBuf s payload.chain) .ret
  else protoerr env s

def tcpOnUserDrain : Res :=
  if s.state = .established then
    sendLast net env s flagAck
  else .ret s []

/-- After the retransmission's emission: the saved count and the backed-off deadline. -/
def rtxDone (saved : BitVec 8) (now : Word) : Tcb :=
  { s with retransmitCount := saved, rtoExpires := now + s.rtoTicks }

/-- The congestion response and back-off that precede a retransmission. -/
def rtxBackoff : Tcb :=
  let s := if s.retransmitCount = 0#8 then tcpCwndOnRto s else s
  let ticks := s.rtoTicks <<< 1
  { s with rtoTicks := if tcpRtoMax < ticks then tcpRtoMax else ticks }

/-- The retransmission itself: the front of the send buffer, or else the pending SYN or FIN. -/
def rtxEmit (saved : BitVec 8) (now : Word) : Res :=
  let done := Res.ret (rtxDone s saved now) []
  if s.sndBuf.headD [] ≠ [] then
    .send [] s (tcpEmitSegment net env .again s s.sndBufSeq flagAckPsh (headChunk s)) (.rtx saved now) done
  else if s.pendingFlags.syn || s.pendingFlags.fin then
    .send [] s (tcpEmitSegment net env .control s s.sndUna s.pendingFlags []) (.rtx saved now) done
  else done

/-- One block's share of a round of tcp_retransmit_main at the tick now. -/
def retransmit (now : Word) : Res :=
  if s.state = .timeWait then
    if 0 ≤ (now - s.timeWaitExpires).toInt then .ret { s with state := .closed, timeWaitExpires := 0#32 } []
    else .ret s []
  else if s.rtoExpires = 0#32 ∨ (now - s.rtoExpires).toInt < 0 then .ret s []
  else if tcpMaxRetransmits ≤ s.retransmitCount then
    .ret { s with state := .closed, rtoExpires := 0#32 } (reply env (.disconInd .timeout))
  else rtxEmit net env (rtxBackoff s) (s.retransmitCount + 1) now

/-- What the user of the stream and the timer can ask of a block. Names chosen elsewhere (the port of a
bind, an initial sequence number, the backlog entry an accept takes) are part of the event. -/
inductive Event where
  | bindReq (port : Port) (answer : BindAnswer)
  | connReq (ip : Ip) (port : Port) (iss : Word)
  | listenReq
  | connRes
  | accept (lport : Port) (entry : Pending) (iss : Word)
  | dataReq (payload : Payload)
  | ordrelReq
  | disconReq
  | drain
  | tick (now : Word)
  deriving DecidableEq

def handle : Event → Res
  | .bindReq port answer => handleBindReq env s port answer
  | .connReq ip port iss => handleConnReq net env s ip port iss
  | .listenReq => handleListenReq env s
  | .connRes => if s.state = .listen ∧ 0 < s.pendingCount then .ret (popPending s).2 [] else protoerr env s
  | .accept lport entry iss => if s.state = .closed then acceptChild net env s lport entry iss else .ret s []
  | .dataReq payload => handleDataReq net env s payload
  | .ordrelReq => handleOrdrelReq net env s
  | .disconReq => handleDisconReq net env s
  | .drain => tcpOnUserDrain net env s
  | .tick now => retransmit net env s now

def Event.starts : Event → Bool
  | .connReq _ _ _ => s.state = .bound
  | .accept _ _ _ => s.state = .closed
  | _ => false

/-- The bytes the block takes from its user with the event: a T_DATA_REQ that is not refused. -/
def Event.accepted : Event → List Byte
  | .dataReq payload =>
    if s.state = .established ∧ s.bufLen + BitVec.ofNat 32 (size payload.chain) ≤ tcpSndBufMax then
      payload.chain.flatten
    else []
  | _ => []

/-- ip_send returned to the frame. -/
def resume : Frame → Res
  | .ret => .ret s []
  | .trySend gathered after => trySendLoop net env (trySendCount env s gathered) after
  | .fastRetransmit seg => afterAck net env s seg
  | .connCon ip port => .ret s (reply env (.connCon ip port))
  | .dataAck seg => inputFin net env s seg
  | .finAck => .ret s (reply env .ordrelInd)
  | .reject => let s := (popPending s).2; rejectLoop net env s.pendingCount s
  | .rtx saved now => .ret (rtxDone s saved now) []

/-- A segment at the block: the port filter, and the hand-over of what a listener does not keep. -/
def arrive (seg : Segment) : Res :=
  if seg.dstPort ≠ s.localPort ∨ (s.state = .listen ∧ !seg.flags.syn) then .ret s []
  else tcpInput net env s seg

structure Conf where
  tcb : Tcb
  stack : List Frame

inductive Label where
  | event (e : Event)
  | arrive (seg : Segment)
  | resume
  deriving DecidableEq

def Res.segments (res : Res) : List Segment := (res.sent.map (·.1)).toList

def Res.conf (res : Res) (below : List Frame) : Conf := ⟨res.tcb, (res.sent.map (·.2)).toList ++ below⟩

def pass (c : Conf) : Label → Option (Res × List Frame)
  | .event e =>
    match c.stack with
    | [] => some (handle net env c.tcb e, [])
    | _ :: _ => none
  | .arrive seg => some (arrive net env c.tcb seg, c.stack)
  | .resume =>
    match c.stack with
    | [] => none
    | frame :: below => some (resume net env c.tcb frame, below)

def fresh : Conf := ⟨tcpQopen, []⟩

/-- Configurations reached from a freshly opened block by passes that all satisfy ok. -/
inductive Reach (net : Interfaces) (ok : Conf → Env → Label → Prop) : Conf → Prop where
  | start : Reach net ok fresh
  | next {c : Conf} {env : Env} {label : Label} {res : Res} {below : List Frame} : Reach net ok c →
      ok c env label → pass net env c label = some (res, below) → Reach net ok (res.conf below)

/-- The configuration after a label; one that does not apply changes nothing. -/
def next (c : Conf) (step : Env × Label) : Conf :=
  match pass net step.1 c step.2 with
  | some (res, below) => res.conf below
  | none => c

end

def run (net : Interfaces) : Conf → List (Env × Label) → Conf
  | c, [] => c
  | c, step :: rest => run net (next net c step) rest

def RunOk (net : Interfaces) (ok : Conf → Env → Label → Prop) : Conf → List (Env × Label) → Prop
  | _, [] => True
  | c, step :: rest => ok c step.1 step.2 ∧ RunOk net ok (next net c step) rest

instance RunOk.decidable (net : Interfaces) (ok : Conf → Env → Label → Prop)
    [(c : Conf) → (env : Env) → (label : Label) → Decidable (ok c env label)] :
    (c : Conf) → (steps : List (Env × Label)) → Decidable (RunOk net ok c steps)
  | _, [] => inferInstanceAs (Decidable True)
  | c, step :: rest =>
    have := RunOk.decidable net ok (next net c step) rest
    inferInstanceAs (Decidable (_ ∧ _))

theorem Reach.run {net : Interfaces} {ok : Conf → Env → Label → Prop} {c : Conf} (steps : List (Env × Label))
    (reached : Reach net ok c) (all : RunOk net ok c steps) : Reach net ok (Tcp.run net c steps) := by
  induction steps generalizing c with
  | nil => exact reached
  | cons step rest ih =>
    refine ih ?_ all.2
    rw [Tcp.next]
    split
    next res below ran => exact .next reached all.1 ran
    · exact reached

/-- The tick counter at the given value, an empty stream head, nothing refused. -/
def Env.calm (tick : Word) : Env := ⟨tick, 0, fun _ => true, fun _ => true⟩

def lan : Interfaces :=
  let nif : Netif := ⟨0x0a000001#32, 0xffffff00#32, 0#32, 1500#32⟩
  ⟨[nif], [nif]⟩

def fromLan (flags : Flags) (seq ack : Word) (payload : List Byte) : Segment :=
  ⟨0x0a000002#32, 0x0a000001#32, 80#16, 7#16, seq, ack, flags, 4096#16, [], payload⟩

def openLan : List (Env × Label) :=
  [(.calm 1#32, .event (.accept 7#16 ⟨0x0a000002#32, 80#16, 1460#16, 99#32, 0, false⟩ 0#32)),
   (.calm 1#32, .resume),
   (.calm 2#32, .arrive (fromLan flagAck 100#32 1#32 []))]

end Kappara.Tcp
