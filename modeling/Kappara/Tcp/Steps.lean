import Kappara.Tcp.Machine

/-! What one pass can do to a block.

Each function of the receive and send paths gets one lemma that says how the
sequence numbers, the send buffer and the state move, and which segment goes
out. Everything proved about runs is derived from these, without looking into
the functions again. -/

set_option autoImplicit false

namespace Kappara.Tcp

open BlockChain Net

/-- The states as far as the send and receive halves of a connection depend on them. -/
inductive Mode where
  | dead | synSent | synReceived | sending | ended
  deriving DecidableEq

def TcpState.mode : TcpState → Mode
  | .closed | .bound | .listen => .dead
  | .synSent => .synSent
  | .synReceived => .synReceived
  | .established | .closeWait => .sending
  | .finWait1 | .finWait2 | .lastAck | .closing | .timeWait => .ended

/-- Not T_DATA_IND and not T_ORDREL_IND. -/
def Ind.plain : Ind → Bool
  | .dataInd _ => false
  | .ordrelInd => false
  | _ => true

/-- The send half did not move; the mode stayed, or the connection ended. -/
structure Held (s s' : Tcb) : Prop where
  una : s'.sndUna = s.sndUna
  nxt : s'.sndNxt = s.sndNxt
  iss : s'.sndIss = s.sndIss
  buf : s'.sndBuf = s.sndBuf
  bufSeq : s'.sndBufSeq = s.sndBufSeq
  inSend : s'.inSend = s.inSend
  pending : s'.pendingFlags = s.pendingFlags
  mode : s'.state.mode = s.state.mode ∨ s'.state.mode = .dead
  tuple : s'.state.mode ≠ .dead →
    s'.localPort = s.localPort ∧ s'.remoteIp = s.remoteIp ∧ s'.remotePort = s.remotePort
  window : s.sndWnd.toNat < 2 ^ 30 → s'.sndWnd.toNat < 2 ^ 30

/-- Neither half of the connection moved; only bookkeeping changed, or the connection ended. -/
structure Idle (s s' : Tcb) : Prop extends Held s s' where
  rcv : s'.rcvNxt = s.rcvNxt

theorem Held.trans {s s' s'' : Tcb} (first : Held s s') (second : Held s' s'') : Held s s'' where
  una := second.una.trans first.una
  nxt := second.nxt.trans first.nxt
  iss := second.iss.trans first.iss
  buf := second.buf.trans first.buf
  bufSeq := second.bufSeq.trans first.bufSeq
  inSend := second.inSend.trans first.inSend
  pending := second.pending.trans first.pending
  mode := by
    rcases second.mode with same | dead
    · rw [same]
      exact first.mode
    · exact .inr dead
  tuple alive := by
    rcases second.mode with same | dead
    · obtain ⟨port, ip, peer⟩ := second.tuple alive
      obtain ⟨port', ip', peer'⟩ := first.tuple (same ▸ alive)
      exact ⟨port.trans port', ip.trans ip', peer.trans peer'⟩
    · exact absurd dead alive
  window := second.window ∘ first.window

theorem Idle.refl (s : Tcb) : Idle s s :=
  ⟨⟨rfl, rfl, rfl, rfl, rfl, rfl, rfl, .inl rfl, fun _ => ⟨rfl, rfl, rfl⟩, id⟩, rfl⟩

theorem Idle.trans {s s' s'' : Tcb} (first : Idle s s') (second : Idle s' s'') : Idle s s'' :=
  ⟨first.toHeld.trans second.toHeld, second.rcv.trans first.rcv⟩

section Timers

variable (net : Interfaces) (env : Env) (s : Tcb)

theorem sampleRtt_eq : ∃ valid srtt var rto, sampleRtt env s =
    { s with rttValid := valid, srttTicks := srtt, rttvarTicks := var, rtoTicks := rto } := by
  rw [sampleRtt]
  split
  · exact ⟨_, _, _, _, rfl⟩
  · exact ⟨s.rttValid, s.srttTicks, s.rttvarTicks, s.rtoTicks, rfl⟩

theorem sampleRtt_idle : Idle s (sampleRtt env s) := by
  obtain ⟨_, _, _, _, eq⟩ := sampleRtt_eq env s
  rw [eq]
  exact { Idle.refl _ with }

theorem sampleRtt_state : (sampleRtt env s).state = s.state := by
  obtain ⟨_, _, _, _, eq⟩ := sampleRtt_eq env s
  rw [eq]

theorem tcpCancelRto_idle : Idle s (tcpCancelRto s) :=
  { Idle.refl _ with }

/-- A new state in the same mode, or in none, leaves both halves alone. -/
theorem setState_idle (state : TcpState) (mode : state.mode = s.state.mode ∨ state.mode = .dead) :
    Idle s (s.setState state) :=
  { Idle.refl s with mode, tuple := fun _ => ⟨rfl, rfl, rfl⟩ }

theorem tcpEnterTimeWait_idle (mode : s.state.mode = .ended) : Idle s (tcpEnterTimeWait env s) :=
  { Idle.refl s with mode := .inl mode.symm, tuple := fun _ => ⟨rfl, rfl, rfl⟩ }

theorem ackState_idle : Idle s (ackState env s) := by
  have sampled := sampleRtt_idle env s
  have same := sampleRtt_state env s
  unfold ackState
  split
  · split
    next h => exact (sampled.trans (tcpCancelRto_idle _)).trans
                (setState_idle _ .finWait2 (.inl (by simp [tcpCancelRto, same, h, TcpState.mode])))
    next h => exact sampled.trans (tcpEnterTimeWait_idle env _ (by rw [same, h]; rfl))
    next h => exact (sampled.trans (tcpCancelRto_idle _)).trans (setState_idle _ .closed (.inr rfl))
    · exact .refl s
  · exact .refl s

theorem finState_idle : Idle s (finState env s) := by
  unfold finState
  split
  next h => exact setState_idle s .closeWait (.inl (by rw [h]; rfl))
  next h => exact setState_idle s .closing (.inl (by rw [h]; rfl))
  next h => exact tcpEnterTimeWait_idle env s (by rw [h]; rfl)
  · exact .refl s

theorem ackState_kept :
    (ackState env s).cwnd = s.cwnd ∧ (ackState env s).sndWnd = s.sndWnd ∧ (ackState env s).mss = s.mss := by
  obtain ⟨_, _, _, _, eq⟩ := sampleRtt_eq env s
  unfold ackState
  rw [eq]
  split
  · split <;> exact ⟨rfl, rfl, rfl⟩
  · exact ⟨rfl, rfl, rfl⟩

theorem finState_kept :
    (finState env s).cwnd = s.cwnd ∧ (finState env s).sndWnd = s.sndWnd ∧ (finState env s).mss = s.mss := by
  unfold finState
  split <;> exact ⟨rfl, rfl, rfl⟩

/-- The scaled window fits in 30 bits, because the shift is at most 14. -/
theorem trackWindow_bound (seg : Segment) : (trackWindow s seg).sndWnd.toNat < 2 ^ 30 := by
  have small : seg.window.toNat < 2 ^ 16 := seg.window.isLt
  have shift : 2 ^ s.sndWndShift.val ≤ 2 ^ 14 := Nat.pow_le_pow_right (by omega) (by omega)
  have wide : (seg.window.setWidth 32).toNat = seg.window.toNat := by
    rw [BitVec.toNat_setWidth, Nat.mod_eq_of_lt (by omega)]
  unfold trackWindow
  simp only
  split
  · omega
  · rw [BitVec.toNat_shiftLeft, wide]
    have product : seg.window.toNat * 2 ^ s.sndWndShift.val < 2 ^ 16 * 2 ^ 14 :=
      Nat.lt_of_le_of_lt (Nat.mul_le_mul_left _ shift) (Nat.mul_lt_mul_of_pos_right small (by decide))
    exact Nat.lt_of_le_of_lt (Nat.mod_le _ _) (by omega)

theorem trackWindow_idle (seg : Segment) : Idle s (trackWindow s seg) :=
  { Idle.refl s with window := fun _ => trackWindow_bound s seg }

theorem enterRecovery_idle : Idle s (enterRecovery s) :=
  { Idle.refl _ with }

theorem inflateCwnd_idle : Idle s (inflateCwnd s) :=
  { Idle.refl _ with }

end Timers

/-- Frames after which the pass only goes on to deliver or to book; the send loop, a FIN and the reject
loop of a listener have more to do. -/
def Frame.tail : Frame → Bool
  | .trySend _ _ => false
  | .finAck => false
  | .reject => false
  | _ => true

def After.cur : After → Option Segment
  | .ret => none
  | .input seg => some seg

def Frame.cur : Frame → Option Segment
  | .trySend _ after => after.cur
  | .fastRetransmit seg => some seg
  | .dataAck seg => some seg
  | _ => none

-- A frame pushed while the segment cur is at hand looks at no other one.
structure Frame.Follows (cur : Option Segment) (frame : Frame) : Prop where
  tail : frame.tail = true
  same : frame.cur = none ∨ frame.cur = cur

section

variable (net : Interfaces) (env : Env) (cur : Option Segment)

/-- Delivery: bookkeeping and in-order data taken from the segment at hand, in the order they happen. -/
inductive Recvs : Tcb → List Ind → Tcb → Prop where
  | done {s : Tcb} : Recvs s [] s
  | idle {s s' s'' : Tcb} {ups : List Ind} : Idle s s' → Recvs s' ups s'' → Recvs s ups s''
  | data {s s' : Tcb} {ups : List Ind} {seg : Segment} : cur = some seg → seg.payload ≠ [] →
      seg.seq = s.rcvNxt → s.state.sending = true →
      Recvs (s.setRcvNxt (s.rcvNxt + seg.len)) ups s' → Recvs s (replyDataInd env seg.payload ++ ups) s'

variable (s : Tcb)

/-- The segment a pass ends with, given the segment at hand and the block it leaves. -/
inductive Emits : Option (Segment × Frame) → Prop where
  | nothing : Emits none
  | bare {frame : Frame} : cur.isSome = true ∨ s.state = .established → frame.Follows cur →
      Emits (some (buildSegment net env s s.sndNxt flagAck [], frame))
  | again {frame : Frame} : s.sndBuf ≠ [] → frame.Follows cur →
      Emits (some (buildSegment net env s s.sndBufSeq flagAckPsh (headChunk s), frame))
  | repeated {saved : BitVec 8} {now : Word} : (s.pendingFlags.syn || s.pendingFlags.fin) = true →
      s.sndBuf.headD [] = [] →
      Emits (some (buildSegment net env s s.sndUna s.pendingFlags [], .rtx saved now))
  | reset {seg : Segment} {frame : Frame} : seg.flags = flagRst → seg.payload = [] → frame.cur = none →
      frame.tail = true ∨ (frame = .reject ∧ s.state.mode = .dead) → Emits (some (seg, frame))

/-- A pass once the send half is settled: it delivers what the segment at hand carries and ends with an
acknowledgement, a retransmission or nothing, or it goes on to take the peer's FIN. -/
inductive Deliver : Res → Prop where
  | run {s' : Tcb} {ups last : List Ind} {sent : Option (Segment × Frame)} : Recvs env cur s ups s' →
      (∀ ind ∈ last, ind.plain = true) → Emits net env cur s' sent → Deliver ⟨s', ups ++ last, sent⟩
  | fin {s' : Tcb} {ups last : List Ind} {seg : Segment} {sent : Option (Segment × Frame)} :
      Recvs env cur s ups s' → cur = some seg → seg.flags.fin = true → seg.seq + seg.len = s'.rcvNxt →
      (∀ ind ∈ last, ind = .ordrelInd) →
      (∀ seg' frame, sent = some (seg', frame) → frame = .finAck ∧ seg' = buildSegment net env
        (finState env (s'.setRcvNxt (s'.rcvNxt + 1))) s'.sndNxt flagAck []) →
      Deliver ⟨finState env (s'.setRcvNxt (s'.rcvNxt + 1)), ups ++ last, sent⟩

/-- A pass of the send loop or of an acknowledgement: it stops at new data, or delivers. -/
inductive Pass : Res → Prop where
  | fresh {data : List Byte} {after : After} : after.cur = cur → s.inSend = false →
      s.state.mode = .sending ∨ s.state.mode = .dead → trySendChunk s = some data →
      Pass ⟨s.setInSend true, [], some (buildSegment net env s s.sndNxt flagAckPsh data, .trySend data.length after)⟩
  | deliver {res : Res} : Deliver net env cur s res → Pass res

end

section Passes

variable {net : Interfaces} {env : Env} {s s' : Tcb} {cur : Option Segment} {seg : Segment} {frame : Frame} {res : Res}
  {P : Res → Prop}

@[simp] theorem send_some (ups : List Ind) (s : Tcb) (seg : Segment) (frame : Frame) (next : Res) :
    Res.send ups s (some seg) frame next = ⟨s, ups, some (seg, frame)⟩ := rfl

@[simp] theorem send_none (ups : List Ind) (s : Tcb) (frame : Frame) (next : Res) :
    Res.send ups s none frame next = ⟨next.tcb, ups ++ next.ups, next.sent⟩ := rfl

theorem Deliver.idle (first : Idle s s') (rest : Deliver net env cur s' res) : Deliver net env cur s res := by
  cases rest with
  | run delivered plain sent => exact .run (.idle first delivered) plain sent
  | fin delivered at_hand flag inOrder last sent => exact .fin (.idle first delivered) at_hand flag inOrder last sent

theorem Deliver.data (at_hand : cur = some seg) (carries : seg.payload ≠ []) (inOrder : seg.seq = s.rcvNxt)
    (sending : s.state.sending = true) (rest : Deliver net env cur (s.setRcvNxt (s.rcvNxt + seg.len)) res) :
    Deliver net env cur s ⟨res.tcb, replyDataInd env seg.payload ++ res.ups, res.sent⟩ := by
  cases rest with
  | run delivered plain sent =>
    rw [← List.append_assoc]
    exact .run (.data at_hand carries inOrder sending delivered) plain sent
  | fin delivered same flag next last sent =>
    rw [← List.append_assoc]
    exact .fin (.data at_hand carries inOrder sending delivered) same flag next last sent

theorem Deliver.quiet {ups : List Ind} (idle : Idle s s') (plain : ∀ ind ∈ ups, ind.plain = true) :
    Deliver net env cur s (.ret s' ups) :=
  .idle idle (.run .done plain .nothing)

theorem Deliver.silent (idle : Idle s s') : Deliver net env cur s (.ret s' []) :=
  .quiet idle (List.forall_mem_nil _)

theorem ipSend_eq {site : Site} {seg' : Segment} (emitted : ipSend net env site seg = some seg') : seg' = seg := by
  rw [ipSend] at emitted
  split at emitted
  · exact (Option.some.inj emitted).symm
  · cases emitted

theorem countSegment_ack (s : Tcb) : countSegment env s flagAck [] = s := by
  simp [countSegment, flagAck, Flags.none]

variable (net env) in
theorem tcpSendSegment_cases (site : Site) (s : Tcb) (flags : Flags) (payload : List Byte) :
    tcpSendSegment net env site s flags payload = (s, none) ∨
      tcpSendSegment net env site s flags payload = (countSegment env s flags payload,
        ipSend net env site (buildSegment net env s s.sndNxt flags payload)) := by
  rw [tcpSendSegment]
  split
  · exact .inl rfl
  · split
    · exact .inr rfl
    · exact .inl rfl

variable (net env) in
/-- A segment that consumes no sequence number leaves the block as it is. -/
theorem tcpSendSegment_plain (site : Site) (s : Tcb) (flags : Flags) (plain : countSegment env s flags [] = s) :
    ∃ emitted, tcpSendSegment net env site s flags [] = (s, emitted) ∧
      ∀ seg, emitted = some seg → seg = buildSegment net env s s.sndNxt flags [] := by
  rcases tcpSendSegment_cases net env site s flags [] with skipped | counted
  · exact ⟨none, skipped, fun seg h => by cases h⟩
  · exact ⟨_, by rw [counted, plain], fun seg h => ipSend_eq h⟩

theorem tcpEmitSegment_eq {site : Site} {seq : Word} {flags : Flags} {body : List Byte}
    (emitted : tcpEmitSegment net env site s seq flags body = some seg) :
    seg = buildSegment net env s seq flags body := by
  rw [tcpEmitSegment] at emitted
  split at emitted
  · cases emitted
  · split at emitted
    · exact ipSend_eq emitted
    · cases emitted

theorem mem_reply {ind i : Ind} (member : i ∈ reply env ind) : i = ind := by
  unfold reply at member
  split at member
  · exact List.mem_singleton.mp member
  · cases member

theorem reply_plain {ind : Ind} (plain : ind.plain = true) : ∀ i ∈ reply env ind, i.plain = true := by
  intro i member
  rw [mem_reply member, plain]

/-- An emission that ends a pass, or is refused and lets it go on. -/
theorem Deliver.emit {emitted : Option Segment} {next : Res}
    (ending : ∀ seg, emitted = some seg → Emits net env cur s (some (seg, frame))) (rest : Deliver net env cur s next) :
    Deliver net env cur s (Res.send [] s emitted frame next) := by
  cases emitted with
  | none => exact rest
  | some seg =>
    exact .run .done (fun _ h => by cases h) (ending seg rfl)

/-- A bare acknowledgement: the block stays, and the pass waits in the frame or goes on from it. -/
theorem Deliver.ack (site : Site) (next : Tcb → Res) (answers : cur.isSome = true ∨ s.state = .established)
    (follows : frame.Follows cur) (rest : Deliver net env cur s (next s)) :
    Deliver net env cur s (let (s', emitted) := tcpSendSegment net env site s flagAck []
      Res.send [] s' emitted frame (next s')) := by
  obtain ⟨emitted, sent, built⟩ := tcpSendSegment_plain net env site s flagAck (countSegment_ack s)
  simp only [sent]
  refine .emit (fun seg taken => ?_) rest
  rw [built seg taken]
  exact .bare answers follows

theorem sendLast_ack_deliver (cur : Option Segment) (s : Tcb) (answers : cur.isSome = true ∨ s.state = .established) :
    Deliver net env cur s (sendLast net env s flagAck) :=
  .ack .control (fun s' => .ret s' []) answers ⟨rfl, .inl rfl⟩
    (.silent (.refl s))

theorem Deliver.again (site : Site) {next : Res} (buffered : s.sndBuf ≠ []) (follows : frame.Follows cur)
    (rest : Deliver net env cur s next) :
    Deliver net env cur s (Res.send [] s (tcpEmitSegment net env site s s.sndBufSeq flagAckPsh (headChunk s))
      frame next) := by
  refine .emit (fun seg taken => ?_) rest
  rw [tcpEmitSegment_eq taken]
  exact .again buffered follows

theorem inputFin_deliver (s : Tcb) (seg : Segment) : Deliver net env (some seg) s (inputFin net env s seg) := by
  rw [inputFin]
  split
  next accepted =>
    obtain ⟨emitted, sent, built⟩ := tcpSendSegment_plain net env .ackFin
      (finState env (s.setRcvNxt (s.rcvNxt + 1))) flagAck (countSegment_ack _)
    simp only [sent]
    cases emitted with
    | none =>
      exact Deliver.fin .done rfl accepted.1 accepted.2 (fun _ member => mem_reply member)
        (fun _ _ h => by cases h)
    | some ack =>
      refine Deliver.fin .done rfl accepted.1 accepted.2 (fun _ h => by cases h) ?_
      intro seg' frame same
      cases same
      have nxt := (finState_idle env (s.setRcvNxt (s.rcvNxt + 1))).nxt
      exact ⟨rfl, (built _ rfl).trans (by rw [nxt, Tcb.setRcvNxt_sndNxt])⟩
  · exact .silent (.refl s)

theorem inputData_deliver (s : Tcb) (seg : Segment) : Deliver net env (some seg) s (inputData net env s seg) := by
  rw [inputData]
  split
  next accepted =>
    obtain ⟨carries, inOrder, sending, -⟩ := accepted
    obtain ⟨emitted, sent, built⟩ := tcpSendSegment_plain net env .ackData
      (s.setRcvNxt (s.rcvNxt + seg.len)) flagAck (countSegment_ack _)
    simp only [sent]
    cases emitted with
    | none => exact .data rfl carries inOrder sending (inputFin_deliver _ seg)
    | some ack =>
      have rest : Deliver net env (some seg) (s.setRcvNxt (s.rcvNxt + seg.len))
          ⟨s.setRcvNxt (s.rcvNxt + seg.len), [] ++ [], some (ack, .dataAck seg)⟩ := by
        rw [built ack rfl]
        exact .run .done (fun _ h => by cases h) (.bare (.inl rfl) ⟨rfl, .inr rfl⟩)
      simpa using Deliver.data rfl carries inOrder sending rest
  · exact inputFin_deliver s seg

theorem afterAck_deliver (s : Tcb) (seg : Segment) : Deliver net env (some seg) s (afterAck net env s seg) :=
  .idle (ackState_idle env s) (inputData_deliver _ seg)

variable (net env) in
theorem continueAfter_deliver (s : Tcb) (after : After) :
    Deliver net env after.cur s (continueAfter net env s after) := by
  cases after with
  | ret => exact .silent (.refl s)
  | input seg => exact afterAck_deliver s seg

theorem mode_sending {state : TcpState} (sending : state.sending = true) : state.mode = .sending := by
  cases state <;> simp_all [TcpState.sending, TcpState.mode]

theorem setInSend_self {b : Bool} (same : s.inSend = b) : s.setInSend b = s := by
  rw [← same]
  rfl

@[simp] theorem setInSend_setInSend (s : Tcb) (b c : Bool) : (s.setInSend b).setInSend c = s.setInSend c := rfl

variable (net env) in
/-- The send loop on a block that is inside it: it stops at the next emission, or leaves the loop. -/
theorem trySendLoop_pass (s : Tcb) (after : After) (busy : s.inSend = true)
    (mode : s.state.mode = .sending ∨ s.state.mode = .dead) :
    Pass net env after.cur (s.setInSend false) (trySendLoop net env s after) := by
  have done := continueAfter_deliver net env (s.setInSend false) after
  rw [trySendLoop]
  split
  · exact .deliver done
  next data chunk =>
    cases emitted : tcpEmitSegment net env .fresh s s.sndNxt flagAckPsh data with
    | none => exact .deliver done
    | some seg =>
      have pass : Pass net env after.cur (s.setInSend false) ⟨(s.setInSend false).setInSend true, [],
          some (buildSegment net env s s.sndNxt flagAckPsh data, .trySend data.length after)⟩ :=
        .fresh rfl rfl mode chunk
      rw [tcpEmitSegment_eq emitted, send_some]
      rwa [setInSend_setInSend, setInSend_self busy] at pass

theorem tcpTrySendPending_pass (s : Tcb) (after : After) :
    Pass net env after.cur s (tcpTrySendPending net env s after) := by
  rw [tcpTrySendPending]
  split
  · exact .deliver (continueAfter_deliver net env s after)
  next entered =>
    rw [Bool.or_eq_true, not_or, Bool.not_eq_true, Bool.not_eq_true, Bool.not_eq_false'] at entered
    have pass := trySendLoop_pass net env (s.setInSend true) after rfl (.inl (mode_sending entered.2))
    rwa [setInSend_setInSend, setInSend_self entered.1] at pass

variable (net env s seg) in
/-- What a segment of the peer does to the send half before anything is delivered: nothing, a
cumulative acknowledgement, or the completion of one of the two handshakes. -/
inductive Settle : Tcb → Prop where
  | idle {s' : Tcb} : s.state.mode = .sending ∨ s.state.mode = .ended → Idle s s' → s'.state = s.state → Settle s'
  | ack : s.state.connected = true → seg.flags.rst = false → seg.flags.ack = true → advances s seg = true →
      Settle (ackAdvance env (trackWindow s seg) seg.ack)
  | connect : s.state = .synSent → seg.flags.syn = true → seg.flags.ack = true → seg.ack = s.sndNxt →
      Settle (connectBlock net env (trackWindow s seg) seg)
  | establish : s.state = .synReceived → seg.flags.ack = true → seg.ack = s.sndNxt →
      Settle (establishBlock env (trackWindow s seg) seg)

variable (net env s seg) in
/-- A segment at a block: it changes bookkeeping at most, or it comes from the peer, settles the send
half and runs a pass. -/
inductive Arrived : Res → Prop where
  | quiet {s' : Tcb} {ups : List Ind} : Idle s s' → (∀ ind ∈ ups, ind.plain = true) → Arrived (.ret s' ups)
  | taken {s' : Tcb} {res : Res} : seg.dstPort = s.localPort → s.fromPeer seg = true → Settle net env s seg s' →
      Pass net env (some seg) s' res → Arrived res

theorem mode_connected {state : TcpState} (connected : state.connected = true) :
    state.mode = .sending ∨ state.mode = .ended := by
  cases state <;> simp_all [TcpState.connected, TcpState.mode]

section Arrivals

variable (port : seg.dstPort = s.localPort)

theorem ignored_arrived (idle : Idle s s') : Arrived net env s seg (.ret s' []) :=
  .quiet idle (fun _ h => by cases h)

include port

theorem inputDupAck_arrived (peer : s.fromPeer seg = true) (mode : s.state.mode = .sending ∨ s.state.mode = .ended)
    (same : s'.state = s.state) (window : Idle s s') (buffered : s'.sndBuf ≠ []) :
    Arrived net env s seg (inputDupAck net env s' seg) := by
  have counted : Idle s (countDupAck s') := window.trans { Idle.refl _ with }
  rw [inputDupAck]
  split
  · refine .taken port peer (.idle mode (counted.trans (enterRecovery_idle _)) same) (.deliver ?_)
    exact Deliver.again .again buffered ⟨rfl, .inr rfl⟩ (afterAck_deliver _ seg)
  · split
    · refine .taken port peer (.idle mode (counted.trans (inflateCwnd_idle _)) same) ?_
      exact tcpTrySendPending_pass _ (.input seg)
    · exact .taken port peer (.idle mode counted same) (.deliver (afterAck_deliver _ seg))

theorem inputConnected_arrived (connected : s.state.connected = true) :
    Arrived net env s seg (inputConnected net env (trackWindow s seg) seg) := by
  have window := trackWindow_idle s seg
  have mode := mode_connected connected
  rw [inputConnected]
  split
  · exact ignored_arrived window
  next peer =>
    rw [Bool.not_eq_true, Bool.not_eq_false'] at peer
    split
    · exact .quiet (window.trans (setState_idle _ .closed (.inr rfl))) (reply_plain rfl)
    next notReset =>
      split
      next flag =>
        split
        next newer =>
          exact .taken port peer (.ack connected (Bool.not_eq_true _ ▸ notReset) flag newer)
            (tcpTrySendPending_pass _ (.input seg))
        · split
          next dup =>
            refine inputDupAck_arrived port peer mode rfl window ?_
            simp only [isDupAck, Bool.and_eq_true, Bool.not_eq_true', List.isEmpty_eq_false_iff] at dup
            exact dup.1.2
          · exact .taken port peer (.idle mode window rfl) (.deliver (afterAck_deliver _ seg))
      · exact .taken port peer (.idle mode window rfl) (.deliver (inputData_deliver _ seg))

theorem inputSynSent_arrived (state : s.state = .synSent) :
    Arrived net env s seg (inputSynSent net env (trackWindow s seg) seg) := by
  rw [inputSynSent]
  split
  next accepted =>
    obtain ⟨syn, ack, covers, peer⟩ := accepted
    refine .taken port peer (.connect state syn ack covers) (.deliver ?_)
    exact .ack .control (fun s' => .ret s' (reply env (.connCon seg.srcIp seg.srcPort))) (.inl rfl)
      ⟨rfl, .inl rfl⟩ (.quiet (.refl _) (reply_plain rfl))
  · exact ignored_arrived (trackWindow_idle s seg)

theorem inputSynReceived_arrived (state : s.state = .synReceived) :
    Arrived net env s seg (inputSynReceived env (trackWindow s seg) seg) := by
  rw [inputSynReceived]
  split
  next accepted =>
    obtain ⟨ack, covers, peer⟩ := accepted
    exact .taken port peer (.establish state ack covers)
      (.deliver (.quiet (.refl _) (reply_plain rfl)))
  · exact ignored_arrived (trackWindow_idle s seg)

theorem inputTimeWait_arrived (state : s.state = .timeWait) :
    Arrived net env s seg (inputTimeWait net env (trackWindow s seg) seg) := by
  have window := trackWindow_idle s seg
  rw [inputTimeWait]
  split
  next again =>
    exact .taken port again.2.1 (.idle (.inr (by rw [state]; rfl)) window rfl)
      (.deliver (sendLast_ack_deliver _ _ (.inl rfl)))
  · exact ignored_arrived window

end Arrivals

theorem inputListen_arrived (s : Tcb) (seg : Segment) : Arrived net env s seg (inputListen env s seg) := by
  rw [inputListen]
  split
  · exact .quiet { Idle.refl _ with }
      (reply_plain rfl)
  · exact ignored_arrived (.refl s)

/-- The branches a segment can take at a block. -/
theorem arrive_elim (dropped : P (.ret s [])) (listen : s.state = .listen → P (inputListen env s seg))
    (ignored : seg.dstPort = s.localPort → P (.ret (trackWindow s seg) []))
    (synSent : seg.dstPort = s.localPort → s.state = .synSent → P (inputSynSent net env (trackWindow s seg) seg))
    (synReceived : seg.dstPort = s.localPort → s.state = .synReceived →
    P (inputSynReceived env (trackWindow s seg) seg))
    (connected : seg.dstPort = s.localPort → s.state.connected = true →
    P (inputConnected net env (trackWindow s seg) seg))
    (timeWait : seg.dstPort = s.localPort → s.state = .timeWait → P (inputTimeWait net env (trackWindow s seg) seg)) :
    P (arrive net env s seg) := by
  rw [arrive]
  split
  · exact dropped
  next filtered =>
    rw [not_or, not_not] at filtered
    have port := filtered.1
    have track : (trackWindow s seg).state = s.state := rfl
    rw [tcpInput]
    cases state : s.state with
    | listen =>
      rw [if_pos rfl, inputState, state]
      exact listen state
    | _ =>
      rw [if_neg nofun, inputState, track, state]
      first
        | exact ignored port
        | exact synSent port state
        | exact synReceived port state
        | exact timeWait port state
        | exact connected port (by rw [state]; rfl)

variable (net env) in
theorem arrive_spec (s : Tcb) (seg : Segment) : Arrived net env s seg (arrive net env s seg) := by
  apply arrive_elim
  case dropped => exact ignored_arrived (.refl s)
  case listen => exact fun _ => inputListen_arrived s seg
  case ignored => exact fun _ => ignored_arrived (trackWindow_idle s seg)
  case synSent => exact inputSynSent_arrived
  case synReceived => exact inputSynReceived_arrived
  case connected => exact inputConnected_arrived
  case timeWait => exact inputTimeWait_arrived

-- The states in which T_DISCON_REQ aborts a connection.
def TcpState.aborts : TcpState → Bool
  | .synSent | .synReceived | .established | .finWait1 | .finWait2 | .closeWait | .lastAck => true
  | _ => false

theorem handleDisconReq_elim (stays : P (.ret s []))
    (reject : s.state = .listen → P (rejectLoop net env s.pendingCount s))
    (abort : s.state.aborts = true → P (sendLast net env (s.setState .closed) flagRst)) :
    P (handleDisconReq net env s) := by
  rw [handleDisconReq]
  cases state : s.state with
  | listen =>
    simp only
    split
    · exact reject state
    · exact stays
  | closed | bound | closing | timeWait => exact stays
  | _ => exact abort (by rw [state]; rfl)

/-- The branches of a tick: TIME_WAIT ends, the timer fires once too often, or it fires. -/
theorem retransmit_elim {now : Word} (stays : P (.ret s []))
    (waited : s.state = .timeWait → P (.ret { s with state := .closed, timeWaitExpires := 0#32 } []))
    (gaveUp : s.rtoExpires ≠ 0#32 ∧ 0 ≤ (now - s.rtoExpires).toInt → tcpMaxRetransmits ≤ s.retransmitCount →
    P (.ret { s with state := .closed, rtoExpires := 0#32 } (reply env (.disconInd .timeout))))
    (fires : s.rtoExpires ≠ 0#32 ∧ 0 ≤ (now - s.rtoExpires).toInt → s.retransmitCount < tcpMaxRetransmits →
    P (rtxEmit net env (rtxBackoff s) (s.retransmitCount + 1) now)) : P (retransmit net env s now) := by
  rw [retransmit]
  split
  next state =>
    split
    · exact waited state
    · exact stays
  · split
    · exact stays
    next fired =>
      rw [not_or, Int.not_lt] at fired
      split
      next spent => exact gaveUp fired spent
      next left => exact fires fired (BitVec.not_le.mp left)

/-- The branches a primitive of the user can take; one that is refused leaves the block as it is. -/
theorem handle_elim {e : Event}
    (stays : ∀ ups, (∀ ind ∈ ups, ind.plain = true) → e.starts s = false → e.accepted s = [] → P (.ret s ups))
    (bindReq : ∀ port answer, e = .bindReq port answer → s.bound = false → ∀ bound port state ups, state = .bound ∨
    state = .closed → (∀ ind ∈ ups, ind.plain = true) →
      P (.ret { s with bound := bound, localPort := port, state := state } ups))
    (connReq : ∀ ip port iss, e = .connReq ip port iss → s.state = .bound →
    P (sendLast net env (openBlock s ip port iss) flagSyn))
    (listenReq : e = .listenReq → s.state = .bound → P (.ret (s.setState .listen) []))
    (connRes : e = .connRes → P (.ret (popPending s).2 []))
    (accept : ∀ lport entry iss, e = .accept lport entry iss → s.state = .closed →
    P (sendLast net env (acceptBlock net s lport entry iss) flagSynAck))
    (dataReq : ∀ payload, e = .dataReq payload → s.state = .established → size payload.chain ≠ 0 →
    s.bufLen + BitVec.ofNat 32 (size payload.chain) ≤ tcpSndBufMax →
      P (tcpTrySendPending net env (appendBuf s payload.chain) .ret))
    (ordrelReq : ∀ state, e = .ordrelReq → s.state.sending = true → state = .finWait1 ∨ state = .lastAck →
    P (sendLast net env (s.setState state) flagAckFin)) (disconReq : e = .disconReq → P (handleDisconReq net env s))
    (drain : e = .drain → s.state = .established → P (sendLast net env s flagAck))
    (tick : ∀ now, e = .tick now → P (retransmit net env s now)) : P (handle net env s e) := by
  cases e with
  | bindReq port answer =>
    rw [handle, handleBindReq]
    split
    · exact stays _ (reply_plain rfl) rfl rfl
    next unbound =>
      have unbound : s.bound = false := Bool.not_eq_true _ ▸ unbound
      cases answer with
      | ack => exact bindReq _ _ rfl unbound true port .bound _ (.inl rfl) (reply_plain rfl)
      | nak => exact bindReq _ _ rfl unbound false 0#16 .closed _ (.inr rfl) (reply_plain rfl)
      | lost => exact bindReq _ _ rfl unbound s.bound port .bound _ (.inl rfl) (List.forall_mem_nil _)
  | connReq ip port iss =>
    rw [handle, handleConnReq]
    split
    next state => exact connReq ip port iss rfl state
    next other => exact stays _ (reply_plain rfl) (decide_eq_false other) rfl
  | listenReq =>
    rw [handle, handleListenReq]
    split
    next state => exact listenReq rfl state
    · exact stays _ (reply_plain rfl) rfl rfl
  | connRes =>
    rw [handle]
    split
    · exact connRes rfl
    · exact stays _ (reply_plain rfl) rfl rfl
  | accept lport entry iss =>
    rw [handle]
    split
    next state => exact accept lport entry iss rfl state
    next other => exact stays _ (List.forall_mem_nil _) (decide_eq_false other) rfl
  | dataReq payload =>
    rw [handle, handleDataReq]
    split
    next state =>
      split
      next nothing =>
        have empty : payload.chain.flatten = [] := List.eq_nil_of_length_eq_zero (by rw [← size_eq, nothing])
        exact stays _ (List.forall_mem_nil _) rfl (by rw [Event.accepted, empty, ite_self])
      next carries =>
        split
        next full => exact stays _ (reply_plain rfl) rfl (if_neg fun taken => BitVec.not_le.mpr full taken.2)
        next fits => exact dataReq payload rfl state carries (BitVec.not_lt.mp fits)
    next other => exact stays _ (reply_plain rfl) rfl (if_neg fun taken => other taken.1)
  | ordrelReq =>
    rw [handle, handleOrdrelReq]
    split
    next state => exact ordrelReq .finWait1 rfl (by rw [state]; rfl) (.inl rfl)
    next state => exact ordrelReq .lastAck rfl (by rw [state]; rfl) (.inr rfl)
    · exact stays _ (reply_plain rfl) rfl rfl
  | disconReq => exact disconReq rfl
  | drain =>
    rw [handle, tcpOnUserDrain]
    split
    next state => exact drain rfl state
    · exact stays _ (List.forall_mem_nil _) rfl rfl
  | tick now => exact tick now rfl

variable (net env s) in
/-- A SYN or FIN: nothing happens, or the sequence number is consumed and the segment may go out. -/
inductive Control (flags : Flags) : Res → Prop where
  | skipped : Control flags ⟨s, [], none⟩
  | counted {sent : Option (Segment × Frame)} :
      sent = none ∨ sent = some (buildSegment net env s s.sndNxt flags [], .ret) →
      Control flags ⟨countSegment env s flags [], [], sent⟩

variable (net env) in
theorem control_spec (s : Tcb) (flags : Flags) : Control net env s flags (sendLast net env s flags) := by
  rw [sendLast]
  rcases tcpSendSegment_cases net env .control s flags [] with skipped | counted
  · rw [skipped]
    exact .skipped
  · rw [counted]
    cases emitted : ipSend net env .control (buildSegment net env s s.sndNxt flags []) with
    | none => exact .counted (.inl rfl)
    | some seg => exact .counted (.inr (by rw [ipSend_eq emitted]))

theorem Control.tcb {flags : Flags} (control : Control net env s flags res) :
    res.tcb = s ∨ res.tcb = countSegment env s flags [] := by
  cases control with
  | skipped => exact .inl rfl
  | counted => exact .inr rfl

theorem countSegment_rst (s : Tcb) : countSegment env s flagRst [] = s := by
  simp [countSegment, flagRst, Flags.none]

theorem Deliver.reset (next : Tcb → Res) (alone : frame.cur = none)
    (tail : frame.tail = true ∨ (frame = .reject ∧ s.state.mode = .dead)) (rest : Deliver net env none s (next s)) :
    Deliver net env none s (let (s', emitted) := tcpSendSegment net env .control s flagRst []
      Res.send [] s' emitted frame (next s')) := by
  obtain ⟨emitted, sent, built⟩ := tcpSendSegment_plain net env .control s flagRst (countSegment_rst s)
  simp only [sent]
  refine .emit (fun seg taken => ?_) rest
  rw [built seg taken]
  exact .reset rfl rfl alone tail

/-- While the block is listening, its remote fields and its backlog are only scratch. -/
theorem remote_idle (s : Tcb) (ip : Ip) (port : Port) (dead : s.state.mode = .dead) :
    Idle s { s with remoteIp := ip, remotePort := port } :=
  { Idle.refl s with tuple := fun alive => absurd dead alive }

theorem popPending_idle (s : Tcb) : Idle s (popPending s).2 :=
  { Idle.refl _ with }

variable (net env) in
theorem rejectLoop_deliver (fuel : Nat) (s : Tcb) (dead : s.state.mode = .dead) :
    Deliver net env none s (rejectLoop net env fuel s) := by
  have cleared (s : Tcb) (dead : s.state.mode = .dead) :
      Deliver net env none s (.ret { s with remoteIp := 0#32, remotePort := 0#16 } []) :=
    .silent (remote_idle s _ _ dead)
  induction fuel generalizing s with
  | zero => exact cleared s dead
  | succ fuel ih =>
    rw [rejectLoop]
    split
    · exact cleared s dead
    · refine .idle (remote_idle s (s.pendingQ s.pendingHead).remoteIp (s.pendingQ s.pendingHead).remotePort
        dead) ?_
      refine .reset (fun s' => rejectLoop net env fuel (popPending s').2) rfl (.inr ⟨rfl, dead⟩) ?_
      exact .idle (popPending_idle _) (ih _ dead)

theorem rtxBackoff_idle (s : Tcb) : Idle s (rtxBackoff s) := by
  have cwnd : Idle s (if s.retransmitCount = 0#8 then tcpCwndOnRto s else s) := by
    split
    · exact { Idle.refl s with }
    · exact .refl s
  exact cwnd.trans { Idle.refl _ with }

theorem rtxDone_idle (s : Tcb) (saved : BitVec 8) (now : Word) : Idle s (rtxDone s saved now) :=
  { Idle.refl _ with }

theorem rtxEmit_deliver (s : Tcb) (saved : BitVec 8) (now : Word) :
    Deliver net env none s (rtxEmit net env s saved now) := by
  have done : Deliver net env none s (.ret (rtxDone s saved now) []) :=
    .silent (rtxDone_idle s saved now)
  rw [rtxEmit]
  split
  next head =>
    refine .again .again ?_ ⟨rfl, .inl rfl⟩ done
    intro empty
    rw [empty] at head
    exact head rfl
  next head =>
    split
    next pending =>
      refine .emit (fun seg taken => ?_) done
      rw [tcpEmitSegment_eq taken]
      exact .repeated pending (not_not.mp head)
    · exact done

/-- A connection given up keeps its numbers and its buffer. -/
theorem close_idle (s : Tcb) (rto expires : Word) :
    Idle s { s with state := .closed, rtoExpires := rto, timeWaitExpires := expires } :=
  { Idle.refl _ with mode := .inr rfl, tuple := fun alive => absurd rfl alive }

theorem retransmit_deliver (s : Tcb) (now : Word) : Deliver net env none s (retransmit net env s now) := by
  apply retransmit_elim
  case stays => exact .silent (.refl s)
  case waited => exact fun _ => .silent (close_idle s s.rtoExpires _)
  case gaveUp => exact fun _ _ => .quiet (close_idle s _ s.timeWaitExpires) (reply_plain rfl)
  case fires => exact fun _ _ => .idle (rtxBackoff_idle s) (rtxEmit_deliver _ _ _)

variable (net env s) in
inductive Resumed : Frame → Res → Prop where
  | deliver {frame : Frame} {res : Res} : frame.tail = true ∨ frame = .reject →
      Deliver net env frame.cur s res → Resumed frame res
  | finAck : Resumed .finAck (.ret s (reply env .ordrelInd))
  | trySend {gathered : Nat} {after : After} {res : Res} :
      Pass net env after.cur ((trySendCount env s gathered).setInSend false) res →
      Resumed (.trySend gathered after) res

variable (env) in
theorem trySendCount_eq (s : Tcb) (gathered : Nat) : ∃ ticks expires tick flags count, trySendCount env s gathered =
    { s with sndNxt := s.sndNxt + BitVec.ofNat 32 gathered, rtoTicks := ticks, rtoExpires := expires,
             sendTick := tick, pendingFlags := flags, retransmitCount := count } := by
  rw [trySendCount]
  split
  · exact ⟨_, _, _, _, _, rfl⟩
  · exact ⟨s.rtoTicks, s.rtoExpires, s.sendTick, s.pendingFlags, s.retransmitCount, rfl⟩

variable (net env) in
theorem resume_spec (s : Tcb) (frame : Frame) (listening : frame = .reject → s.state.mode = .dead)
    (looping : ∀ n after, frame = .trySend n after →
      s.inSend = true ∧ (s.state.mode = .sending ∨ s.state.mode = .dead)) :
    Resumed net env s frame (resume net env s frame) := by
  cases frame with
  | ret => exact .deliver (.inl rfl) (.silent (.refl s))
  | trySend gathered after =>
    obtain ⟨busy, mode⟩ := looping gathered after rfl
    obtain ⟨_, _, _, _, _, eq⟩ := trySendCount_eq env s gathered
    refine .trySend (trySendLoop_pass net env _ after ?_ ?_)
    · rw [eq]
      exact busy
    · rw [eq]
      exact mode
  | fastRetransmit seg => exact .deliver (.inl rfl) (afterAck_deliver s seg)
  | connCon ip port => exact .deliver (.inl rfl) (.quiet (.refl s) (reply_plain rfl))
  | dataAck seg => exact .deliver (.inl rfl) (inputFin_deliver s seg)
  | finAck => exact .finAck
  | reject =>
    exact .deliver (.inr rfl) (.idle (popPending_idle s)
      (rejectLoop_deliver net env _ _ (listening rfl)))
  | rtx saved now =>
    exact .deliver (.inl rfl) (.silent (rtxDone_idle s saved now))

variable (net env s) in
inductive Handled : Event → Res → Prop where
  | deliver {e : Event} {res : Res} : e.starts s = false → e.accepted s = [] → Deliver net env none s res →
      Handled e res
  | connReq {ip : Ip} {port : Port} {iss : Word} {res : Res} : s.state = .bound →
      Control net env (openBlock s ip port iss) flagSyn res → Handled (.connReq ip port iss) res
  | accept {lport : Port} {entry : Pending} {iss : Word} {res : Res} : s.state = .closed →
      Control net env (acceptBlock net s lport entry iss) flagSynAck res →
      Handled (.accept lport entry iss) res
  | dataReq {payload : Payload} {res : Res} : s.state = .established → size payload.chain ≠ 0 →
      s.bufLen + BitVec.ofNat 32 (size payload.chain) ≤ tcpSndBufMax →
      Pass net env none (appendBuf s payload.chain) res → Handled (.dataReq payload) res
  | ordrelReq {state : TcpState} {res : Res} : s.state.mode = .sending → state.mode = .ended →
      Control net env (s.setState state) flagAckFin res → Handled .ordrelReq res

variable (net env) in
theorem handleDisconReq_deliver (s : Tcb) : Deliver net env none s (handleDisconReq net env s) := by
  apply handleDisconReq_elim
  case stays => exact .silent (.refl s)
  case reject => exact fun state => rejectLoop_deliver net env _ s (by rw [state]; rfl)
  case abort =>
    exact fun _ => .idle (setState_idle s .closed (.inr rfl)) (.reset (fun s' => .ret s' []) rfl (.inl rfl)
      (.silent (.refl _)))

variable (net env) in
theorem handle_spec (s : Tcb) (e : Event) : Handled net env s e (handle net env s e) := by
  apply handle_elim
  case stays => exact fun ups plain stays none => .deliver stays none (.quiet (.refl s) plain)
  case bindReq =>
    rintro _ _ rfl _ bound port state ups either plain
    have dead : state.mode = .dead := by rcases either with rfl | rfl <;> rfl
    exact .deliver rfl rfl (.quiet { Idle.refl _ with mode := .inr dead, tuple := fun alive => absurd dead alive }
      plain)
  case connReq =>
    rintro ip port iss rfl bound
    exact .connReq bound (control_spec net env _ _)
  case listenReq =>
    rintro rfl _
    exact .deliver rfl rfl (.silent (setState_idle s .listen (.inr rfl)))
  case connRes =>
    rintro rfl
    exact .deliver rfl rfl (.silent (popPending_idle s))
  case accept =>
    rintro lport entry iss rfl closed
    exact .accept closed (control_spec net env _ _)
  case dataReq =>
    rintro payload rfl open_ carries fits
    exact .dataReq open_ carries fits (tcpTrySendPending_pass _ .ret)
  case ordrelReq =>
    rintro state rfl sending either
    exact .ordrelReq (mode_sending sending) (by rcases either with rfl | rfl <;> rfl) (control_spec net env _ _)
  case disconReq =>
    rintro rfl
    exact .deliver rfl rfl (handleDisconReq_deliver net env s)
  case drain =>
    rintro rfl open_
    exact .deliver rfl rfl (sendLast_ack_deliver none s (.inr open_))
  case tick =>
    rintro now rfl
    exact .deliver rfl rfl (retransmit_deliver s now)

end Passes

structure Acked (s : Tcb) (ack : Word) (s' : Tcb) : Prop where
  una : s'.sndUna = ack
  nxt : s'.sndNxt = s.sndNxt
  iss : s'.sndIss = s.sndIss
  rcv : s'.rcvNxt = s.rcvNxt
  inSend : s'.inSend = s.inSend
  pending : s'.pendingFlags = s.pendingFlags
  state : s'.state = s.state
  tuple : s'.localPort = s.localPort ∧ s'.remoteIp = s.remoteIp ∧ s'.remotePort = s.remotePort
  window : s'.sndWnd = s.sndWnd
  mss : s'.mss = s.mss
  buf : (s.sndBuf = [] ∧ s'.sndBuf = []) ∨ (s.sndBuf ≠ [] ∧ s.bufLen ≤ ack - s.sndUna ∧ s'.sndBuf = []) ∨
    (s.sndBuf ≠ [] ∧ ack - s.sndUna < s.bufLen ∧ s'.sndBuf = trim s.sndBuf (ack - s.sndUna).toNat ∧
      s'.sndBufSeq = s.sndBufSeq + (ack - s.sndUna))

variable (env : Env) (s : Tcb)

theorem tcpCwndOnAck_eq : ∃ cwnd, tcpCwndOnAck s = { s with cwnd := cwnd } := by
  rw [tcpCwndOnAck]
  split
  · exact ⟨_, rfl⟩
  · exact ⟨_, rfl⟩

/-- The block after snd_una has moved: nothing was buffered, all of the buffer is acknowledged, or the
front of it. -/
inductive Advance (ack : Word) : Tcb → Prop where
  | empty {cwnd : Word} : s.sndBuf = [] → Advance ack { s with sndUna := ack, cwnd := cwnd, dupAckCount := 0#8 }
  | all {cwnd srtt var ticks : Word} {valid : Bool} : s.sndBuf ≠ [] → s.bufLen ≤ ack - s.sndUna →
      Advance ack { s with
        sndUna := ack, cwnd := cwnd, dupAckCount := 0#8, sndBuf := [], sndBufSeq := 0#32, rttValid := valid
        srttTicks := srtt, rttvarTicks := var, rtoTicks := ticks, rtoExpires := 0#32 }
  | part {cwnd tick : Word} {count : BitVec 8} : s.sndBuf ≠ [] → ack - s.sndUna < s.bufLen →
      Advance ack { s with
        sndUna := ack, cwnd := cwnd, dupAckCount := 0#8, sndBuf := trim s.sndBuf (ack - s.sndUna).toNat
        sndBufSeq := s.sndBufSeq + (ack - s.sndUna)
        rtoExpires := if 0#32 < s.sndNxt - s.sndBufSeq - (ack - s.sndUna) then env.tick + s.rtoTicks else 0#32
        sendTick := tick, retransmitCount := count }

/-- The block with snd_una moved and the congestion window adjusted, before the buffer is trimmed. -/
theorem ackAdvance_eq (ack : Word) : ∃ cwnd, ackAdvance env s ack =
    ackTrim env { s with sndUna := ack, cwnd := cwnd, dupAckCount := 0#8 } (ack - s.sndUna) := by
  obtain ⟨cwnd, eq⟩ := tcpCwndOnAck_eq
    { s with sndUna := ack, cwnd := if 3#8 ≤ s.dupAckCount then s.ssthresh else s.cwnd, dupAckCount := 0#8 }
  exact ⟨cwnd, by rw [ackAdvance, eq]⟩

theorem ackAdvance_advance (ack : Word) : Advance env s ack (ackAdvance env s ack) := by
  obtain ⟨cwnd, eq⟩ := ackAdvance_eq env s ack
  rw [eq, ackTrim]
  split
  next empty => exact .empty empty
  next buffered =>
    split
    next all =>
      obtain ⟨_, _, _, _, eq⟩ := sampleRtt_eq env
        { s with sndUna := ack, cwnd := cwnd, dupAckCount := 0#8, sndBuf := [],
                                                           sndBufSeq := 0#32 }
      rw [eq]
      exact .all buffered all
    next part =>
      have short := BitVec.not_le.mp part
      dsimp only
      split
      next left =>
        have advance := @Advance.part env s ack cwnd env.tick 0#8 buffered short
        rwa [if_pos left] at advance
      next none =>
        have advance := @Advance.part env s ack cwnd s.sendTick s.retransmitCount buffered short
        rwa [if_neg none] at advance

theorem ackAdvance_acked (ack : Word) : Acked s ack (ackAdvance env s ack) := by
  have advance := ackAdvance_advance env s ack
  generalize ackAdvance env s ack = s' at advance ⊢
  cases advance with
  | empty none => exact ⟨rfl, rfl, rfl, rfl, rfl, rfl, rfl, ⟨rfl, rfl, rfl⟩, rfl, rfl, .inl ⟨none, none⟩⟩
  | all some all => exact ⟨rfl, rfl, rfl, rfl, rfl, rfl, rfl, ⟨rfl, rfl, rfl⟩, rfl, rfl, .inr (.inl ⟨some, all, rfl⟩)⟩
  | part some part =>
    exact ⟨rfl, rfl, rfl, rfl, rfl, rfl, rfl, ⟨rfl, rfl, rfl⟩, rfl, rfl, .inr (.inr ⟨some, part, rfl, rfl⟩)⟩

/-- A handshake completed: everything sent is acknowledged and the block may send. -/
structure Opened (s : Tcb) (seg : Segment) (rcv : Word) (s' : Tcb) : Prop where
  una : s'.sndUna = seg.ack
  nxt : s'.sndNxt = s.sndNxt
  iss : s'.sndIss = s.sndIss
  rcv : s'.rcvNxt = rcv
  buf : s'.sndBuf = s.sndBuf
  bufSeq : s'.sndBufSeq = s.sndBufSeq
  inSend : s'.inSend = s.inSend
  pending : s'.pendingFlags = s.pendingFlags
  state : s'.state = .established
  tuple : s'.localPort = s.localPort ∧ s'.remoteIp = s.remoteIp ∧ s'.remotePort = s.remotePort
  window : s'.sndWnd = s.sndWnd

theorem connectBlock_opened (net : Interfaces) (env : Env) (s : Tcb) (seg : Segment) :
    Opened s seg (seg.seq + 1) (connectBlock net env s seg) := by
  obtain ⟨_, _, _, _, eq⟩ := sampleRtt_eq env s
  rw [connectBlock, eq]
  exact ⟨rfl, rfl, rfl, rfl, rfl, rfl, rfl, rfl, rfl, ⟨rfl, rfl, rfl⟩, rfl⟩

theorem establishBlock_opened (seg : Segment) :
    Opened s seg s.rcvNxt (establishBlock env s seg) := by
  obtain ⟨_, _, _, _, eq⟩ := sampleRtt_eq env s
  rw [establishBlock, eq]
  exact ⟨rfl, rfl, rfl, rfl, rfl, rfl, rfl, rfl, rfl, ⟨rfl, rfl, rfl⟩, rfl⟩

/-- A SYN or FIN took its sequence number; only the timer was touched besides. -/
structure Counted (s : Tcb) (flags : Flags) (s' : Tcb) : Prop where
  nxt : s'.sndNxt = s.sndNxt + 1#32
  una : s'.sndUna = s.sndUna
  iss : s'.sndIss = s.sndIss
  rcv : s'.rcvNxt = s.rcvNxt
  buf : s'.sndBuf = s.sndBuf
  bufSeq : s'.sndBufSeq = s.sndBufSeq
  inSend : s'.inSend = s.inSend
  pending : s'.pendingFlags = flags
  state : s'.state = s.state
  tuple : s'.localPort = s.localPort ∧ s'.remoteIp = s.remoteIp ∧ s'.remotePort = s.remotePort
  window : s'.sndWnd = s.sndWnd

theorem countSegment_counted (flags : Flags) (one : flags.syn = !flags.fin) :
    Counted s flags (countSegment env s flags []) := by
  obtain ⟨fin, syn, rst, psh, ack, urg⟩ := flags
  obtain rfl : syn = !fin := one
  cases fin
  · exact ⟨BitVec.add_zero _, rfl, rfl, rfl, rfl, rfl, rfl, rfl, rfl, ⟨rfl, rfl, rfl⟩, rfl⟩
  · exact ⟨BitVec.add_zero _, rfl, rfl, rfl, rfl, rfl, rfl, rfl, rfl, ⟨rfl, rfl, rfl⟩, rfl⟩

-- What a round of the send loop gathers lies inside the buffer and inside both windows.
structure Chunk (s : Tcb) (data : List Byte) : Prop where
  buffered : s.sndBuf ≠ []
  unsent : s.sndNxt - s.sndBufSeq < s.bufLen
  gathered : ∃ want, data = gather s.sndBuf (s.sndNxt - s.sndBufSeq).toNat want
  short : data.length ≤ s.mss.toNat
  window : s.inflight < s.sndWnd

theorem windowRoom_pos {window inflight : Word} (room : windowRoom window inflight ≠ 0#32) : inflight < window := by
  by_contra closed
  exact room (if_neg closed)

theorem minWord_ne_zero {a b : Word} (positive : minWord a b ≠ 0#32) : a ≠ 0#32 ∧ b ≠ 0#32 := by
  unfold minWord at positive
  split at positive
  next less =>
    refine ⟨positive, fun zero => ?_⟩
    rw [zero] at less
    exact absurd less BitVec.not_lt_zero
  next less =>
    refine ⟨fun zero => ?_, positive⟩
    rw [zero, BitVec.not_lt] at less
    exact positive (BitVec.le_zero_iff.mp less)

theorem clampMss_le (chunk : Word) : (if s.mssWord < chunk then s.mssWord else chunk).toNat ≤ s.mss.toNat := by
  have wide : s.mssWord.toNat = s.mss.toNat := by
    rw [Tcb.mssWord, BitVec.toNat_setWidth, Nat.mod_eq_of_lt (Nat.lt_trans s.mss.isLt (by decide))]
  split
  · exact Nat.le_of_eq wide
  next small =>
    rw [BitVec.not_lt] at small
    exact small

theorem trySendChunk_spec {s : Tcb} {data : List Byte} (chunk : trySendChunk s = some data) : Chunk s data := by
  obtain ⟨buffered, chunk⟩ := Option.ite_none_left_eq_some.mp chunk
  simp only at chunk
  obtain ⟨unsent, chunk⟩ := Option.ite_none_left_eq_some.mp chunk
  obtain ⟨room, chunk⟩ := Option.ite_none_left_eq_some.mp chunk
  have data := (Option.some.inj chunk).symm
  refine ⟨buffered, BitVec.not_le.mp unsent, ⟨_, data⟩, ?_, windowRoom_pos (minWord_ne_zero room).2⟩
  rw [data, gather_length]
  exact Nat.le_trans (Nat.min_le_left _ _) (clampMss_le s _)

theorem appendBuf_eq (payload : Chain Byte) : appendBuf s payload =
    { s with sndBuf := s.sndBuf ++ payload, sndBufSeq := if s.sndBuf = [] then s.sndNxt else s.sndBufSeq } := by
  rw [appendBuf]
  split
  next empty => rw [empty, List.nil_append]
  · rfl

end Kappara.Tcp
