import Kappara.Tcp.Timer

/-! Late segments of a connection: the acknowledgement that ends a simultaneous
close, and segments the receiver has already had (tcp_input_segment and
tcp_retransmit_main of uts/os/net/tcp.c). -/

set_option autoImplicit false

namespace Kappara.Tcp

open BlockChain Net

variable (net : Interfaces) (env : Env) {s : Tcb} {seg : Segment}

theorem arrive_input (port : seg.dstPort = s.localPort) (state : s.state ≠ .listen) :
    arrive net env s seg = inputState net env (trackWindow s seg) seg := by
  rw [arrive, if_neg (by simp [port, state]), tcpInput, if_neg state]

theorem arrive_connected (port : seg.dstPort = s.localPort) (state : s.state.connected = true) :
    arrive net env s seg = inputConnected net env (trackWindow s seg) seg := by
  rw [arrive_input net env port (by intro h; rw [h] at state; cases state), inputState]
  have same : (trackWindow s seg).state = s.state := rfl
  rw [same]
  cases h : s.state <;> first | rfl | (rw [h] at state; cases state)

section SimultaneousClose

/-- The segment from the peer that acknowledges our outstanding FIN when the peer's FIN has been taken,
or that carries it. -/
structure AcksFin (s : Tcb) (seg : Segment) : Prop where
  state : s.state = .closing ∨ (s.state = .finWait1 ∧ seg.flags.fin = true ∧ seg.seq + seg.len = s.rcvNxt)
  port : seg.dstPort = s.localPort
  peer : s.fromPeer seg = true
  reset : seg.flags.rst = false
  ack : seg.flags.ack = true
  all : seg.ack = s.sndNxt
  outstanding : advances s seg = true

/-- The close goes on to TIME_WAIT with the retransmission timer off, and the clock later ends it. -/
structure Completes (net : Interfaces) (env : Env) (s : Tcb) (seg : Segment) : Prop where
  state : (arrive net env s seg).tcb.state = .timeWait
  timer : (arrive net env s seg).tcb.rtoExpires = 0#32
  clock : ∀ (later : Env) (now : Word), 0 ≤ (now - (arrive net env s seg).tcb.timeWaitExpires).toInt →
    (retransmit net later (arrive net env s seg).tcb now).tcb.state = .closed

/-- CLOSING is not among the states whose segments are processed. -/
theorem arrive_closing (state : s.state = .closing) : (arrive net env s seg).tcb.state = .closing := by
  by_cases port : seg.dstPort = s.localPort
  · rw [arrive_input net env port (by rw [state]; decide), inputState]
    have same : (trackWindow s seg).state = .closing := state
    rw [same]
    exact same
  · rw [arrive, if_pos (.inl port)]
    exact state

theorem Res.send_tcb (ups ups' : List Ind) (s : Tcb) (emitted : Option Segment) (frame : Frame) :
    (Res.send ups s emitted frame (.ret s ups')).tcb = s := by
  cases emitted <;> rfl

theorem inputFin_finWait2 (state : s.state = .finWait2) (fin : seg.flags.fin = true)
    (inOrder : seg.seq + seg.len = s.rcvNxt) :
    (inputFin net env s seg).tcb = tcpEnterTimeWait env (s.setRcvNxt (s.rcvNxt + 1)) := by
  obtain ⟨emitted, sent, -⟩ := tcpSendSegment_plain net env .ackFin
    (tcpEnterTimeWait env (s.setRcvNxt (s.rcvNxt + 1))) flagAck (countSegment_ack _)
  have taken : finState env (s.setRcvNxt (s.rcvNxt + 1)) = tcpEnterTimeWait env (s.setRcvNxt (s.rcvNxt + 1)) := by
    rw [finState, Tcb.setRcvNxt_state, state]
  rw [inputFin, if_pos ⟨fin, inOrder⟩, taken]
  simp only [sent]
  exact Res.send_tcb _ _ _ _ _

/-- FIN_WAIT_1 with the FIN covered: the timer is off before the peer's FIN is looked at. -/
theorem arrive_finWait1 (last : AcksFin s seg) (state : s.state = .finWait1) (fin : seg.flags.fin = true)
    (inOrder : seg.seq + seg.len = s.rcvNxt) : ∃ t : Tcb, (arrive net env s seg).tcb = tcpEnterTimeWait env t := by
  have acked := ackAdvance_acked env (trackWindow s seg) seg.ack
  have waits := acked.state.trans state
  have covered : (ackAdvance env (trackWindow s seg) seg.ack).sndUna =
      (ackAdvance env (trackWindow s seg) seg.ack).sndNxt := by
    rw [acked.una, acked.nxt, last.all]
    rfl
  rw [arrive_connected net env last.port (by rw [state]; rfl), inputConnected,
    if_neg (by rw [show (trackWindow s seg).fromPeer seg = true from last.peer]; decide),
    if_neg (by rw [last.reset]; decide), if_pos last.ack,
    if_pos (show advances (trackWindow s seg) seg = true from last.outstanding), tcpTrySendPending,
    if_pos (by rw [waits]; simp [TcpState.sending]), continueAfter, afterAck, ackState, if_pos covered, waits,
    inputData, if_neg (by simp [TcpState.sending])]
  refine ⟨_, inputFin_finWait2 net env rfl fin ?_⟩
  calc seg.seq + seg.len = (ackAdvance env (trackWindow s seg) seg.ack).rcvNxt := inOrder.trans acked.rcv.symm
    _ = _ := (sampleRtt_idle env _).rcv.symm

/-- The acknowledgement of our FIN completes the close exactly when the block is not in CLOSING, that
is when the same segment brings the peer's FIN. -/
theorem close_completes_iff_not_closing (net : Interfaces) (env : Env) (s : Tcb) (seg : Segment)
    (last : AcksFin s seg) : Completes net env s seg ↔ s.state ≠ .closing := by
  constructor
  · intro completes closing
    have stays := completes.state.symm.trans (arrive_closing net env closing)
    cases stays
  · intro open_
    rcases last.state with closing | ⟨state, fin, inOrder⟩
    · exact absurd closing open_
    · obtain ⟨t, ends⟩ := arrive_finWait1 net env last state fin inOrder
      refine ⟨by rw [ends]; rfl, by rw [ends]; rfl, fun later now expired => ?_⟩
      rw [retransmit, if_pos (by rw [ends]; rfl), if_pos expired]
      rfl

def finSent : List (Env × Label) :=
  openLan ++ [(.calm 3#32, .event .ordrelReq), (.calm 3#32, .resume)]

theorem close_completes_fin_ack :
    Completes lan (.calm 4#32) (run lan fresh finSent).tcb (fromLan flagAckFin 100#32 2#32 []) :=
  (close_completes_iff_not_closing _ _ _ _ (by refine ⟨.inr ?_, ?_, ?_, ?_, ?_, ?_, ?_⟩ <;> decide +kernel)).mpr
    (by decide +kernel)

/-- Both sides close at once: the acknowledgement of our FIN leaves the block in CLOSING. -/
theorem closing_never_left : ∃ c, Reach lan (fun _ _ _ => True) c ∧ c.stack = [] ∧ c.tcb.state = .closing ∧
    AcksFin c.tcb (fromLan flagAck 101#32 2#32 []) ∧
    (arrive lan (.calm 5#32) c.tcb (fromLan flagAck 101#32 2#32 [])).tcb.state = .closing ∧
    ¬ Completes lan (.calm 5#32) c.tcb (fromLan flagAck 101#32 2#32 []) := by
  let steps := finSent ++
    [(Env.calm 4#32, Label.arrive (fromLan flagAckFin 100#32 1#32 [])), (Env.calm 4#32, Label.resume)]
  have closing : (run lan fresh steps).tcb.state = .closing := by decide +kernel
  refine ⟨run lan fresh steps, .run steps .start (by decide +kernel), by decide +kernel, closing,
    by refine ⟨.inl closing, ?_, ?_, ?_, ?_, ?_, ?_⟩ <;> decide +kernel, arrive_closing lan (.calm 5#32) closing,
      fun completes => ?_⟩
  have stays := completes.state.symm.trans (arrive_closing lan (.calm 5#32) closing)
  cases stays

end SimultaneousClose

section Emission

/-- What a segment with n bytes behind the TCP header meets on its way out: a route with an address, memory, an MTU it
fits, and layers below that take it. -/
def emits (site : Site) (dst : Ip) (n : Nat) : Bool :=
  ipRouteSrc net dst != 0#32 && env.alloc site && ipCarries net dst (BitVec.ofNat 32 (tcpHdrLenMin + n)) &&
    env.taken site

theorem tcpEmitSegment_isSome (site : Site) (s : Tcb) (seq : Word) {flags : Flags} (body : List Byte)
    (plain : flags.syn = false) :
    (tcpEmitSegment net env site s seq flags body).isSome = emits net env site s.remoteIp body.length := by
  rw [tcpEmitSegment, emits]
  simp [ipSend, Segment.wireLen, buildSegment, plain]
  grind

theorem tcpSendSegment_isSome (site : Site) (s : Tcb) (flags : Flags) (plain : flags.syn = false) :
    (tcpSendSegment net env site s flags []).2.isSome = emits net env site s.remoteIp 0 := by
  have same := tcpEmitSegment_isSome net env site s s.sndNxt [] plain
  rw [tcpEmitSegment] at same
  rw [tcpSendSegment]
  grind

/-- What tcp_cwnd_on_ack makes of the window. -/
def cwndGrown (cwnd ssthresh mss : Word) : Word :=
  let incr := (mss * mss + cwnd / 2) / cwnd
  cwnd + if cwnd < ssthresh then mss else if incr = 0#32 then 1 else incr

theorem tcpCwndOnAck_cwnd (s : Tcb) : (tcpCwndOnAck s).cwnd = cwndGrown s.cwnd s.ssthresh s.mssWord := by
  unfold tcpCwndOnAck cwndGrown
  split <;> rfl

/-- The congestion window once an acknowledgement that advances snd_una is counted. -/
def cwndAfterAck (s : Tcb) : Word := cwndGrown (if 3#8 ≤ s.dupAckCount then s.ssthresh else s.cwnd) s.ssthresh s.mssWord

/-- The acknowledgement leaves bytes that were not sent yet, there is room for them in both windows, and the next chunk
of them gets out. -/
def letsOut (s : Tcb) (seg : Segment) : Bool :=
  let acked := seg.ack - s.sndUna
  let sent := s.sndNxt - s.sndBufSeq - acked
  let inflight := s.sndNxt - seg.ack
  let room := minWord (windowRoom (cwndAfterAck s) inflight) (windowRoom (announced s seg) inflight)
  let chunk := minWord (s.bufLen - acked - sent) room
  acked < s.bufLen && sent < s.bufLen - acked && room != 0#32 &&
    emits net env .fresh s.remoteIp (if s.mssWord < chunk then s.mssWord else chunk).toNat

theorem ackTrim_cwnd (s : Tcb) (acked : Word) : (ackTrim env s acked).cwnd = s.cwnd := by
  rw [ackTrim]
  split
  · rfl
  · split
    · obtain ⟨_, _, _, _, eq⟩ := sampleRtt_eq env { s with sndBuf := [], sndBufSeq := 0#32 }
      rw [eq]
      rfl
    · dsimp only
      split <;> rfl

theorem ackAdvance_cwnd (s : Tcb) (ack : Word) : (ackAdvance env s ack).cwnd = cwndAfterAck s := by
  rw [ackAdvance, ackTrim_cwnd, tcpCwndOnAck_cwnd]
  rfl

/-- The chunk that is gathered is as long as it was cut. -/
theorem gather_chunk {chain : Chain Byte} {sent chunk : Word} (unsent : sent < BitVec.ofNat 32 (size chain))
    (fits : chunk ≤ BitVec.ofNat 32 (size chain) - sent) :
    (gather chain sent.toNat chunk.toNat).length = chunk.toNat := by
  rw [gather_length, Nat.min_eq_left]
  rw [BitVec.le_def, BitVec.toNat_sub_of_le (BitVec.le_of_lt unsent), BitVec.toNat_ofNat] at fits
  have := Nat.mod_le (size chain) (2 ^ 32)
  omega

theorem bufLen_trim {chain : Chain Byte} {acked : Word} (part : acked < BitVec.ofNat 32 (size chain)) :
    BitVec.ofNat 32 (size (trim chain acked.toNat)) = BitVec.ofNat 32 (size chain) - acked := by
  rw [BitVec.lt_def, BitVec.toNat_ofNat] at part
  have := Nat.mod_le (size chain) (2 ^ 32)
  rw [size_eq, trim_flatten, List.length_drop, ← size_eq]
  apply BitVec.eq_of_toNat_eq
  rw [BitVec.toNat_sub, BitVec.toNat_ofNat, BitVec.toNat_ofNat]
  omega

theorem sendsOn_ackAdvance (s : Tcb) (seg : Segment) :
    sendsOn net env ((ackAdvance env (trackWindow s seg) seg.ack).setInSend true) = letsOut net env s seg := by
  have acked := ackAdvance_acked env (trackWindow s seg) seg.ack
  have cwnd : (ackAdvance env (trackWindow s seg) seg.ack).cwnd = cwndAfterAck s := ackAdvance_cwnd env _ _
  generalize ackAdvance env (trackWindow s seg) seg.ack = t at acked cwnd
  unfold sendsOn trySendChunk letsOut
  rcases acked.buf with ⟨none, empty⟩ | ⟨-, all, empty⟩ | ⟨some, part, trimmed, seq⟩
  · have zero : s.bufLen = 0#32 := by
      rw [Tcb.bufLen, show s.sndBuf = [] from none]
      rfl
    simp [empty, zero]
  · have past : ¬ seg.ack - s.sndUna < s.bufLen := BitVec.not_lt.mpr all
    simp [empty, past]
  · have more : seg.ack - s.sndUna < s.bufLen := part
    have len : (t.setInSend true).bufLen = s.bufLen - (seg.ack - s.sndUna) := by
      rw [Tcb.bufLen, Tcb.setInSend_sndBuf, trimmed]
      exact bufLen_trim more
    have sent : (t.setInSend true).sndNxt - (t.setInSend true).sndBufSeq =
        s.sndNxt - s.sndBufSeq - (seg.ack - s.sndUna) := by
      rw [Tcb.setInSend_sndNxt, Tcb.setInSend_sndBufSeq, acked.nxt, seq]
      exact sub_add_eq_sub_sub ..
    have inflight : (t.setInSend true).inflight = s.sndNxt - seg.ack := by
      rw [Tcb.inflight, Tcb.setInSend_sndNxt, Tcb.setInSend_sndUna, acked.nxt, acked.una]
      rfl
    have window : (t.setInSend true).sndWnd = announced s seg := acked.window
    have grown : (t.setInSend true).cwnd = cwndAfterAck s := cwnd
    have mss : (t.setInSend true).mssWord = s.mssWord := by
      rw [Tcb.mssWord, Tcb.setInSend_mss, acked.mss]
      rfl
    have peer : (t.setInSend true).remoteIp = s.remoteIp := acked.tuple.2.1
    generalize t.setInSend true = u at *
    simp only [len, sent, inflight, window, grown, mss, more, decide_true, Bool.true_and]
    generalize s.sndNxt - s.sndBufSeq - (seg.ack - s.sndUna) = off at *
    generalize minWord (windowRoom _ _) (windowRoom _ _) = room
    by_cases unsent : off < s.bufLen - (seg.ack - s.sndUna)
    · have some : u.sndBuf ≠ [] := by
        intro none
        rw [← len, Tcb.bufLen, none] at unsent
        exact absurd unsent (BitVec.not_lt_zero)
      rw [if_neg some, if_neg (BitVec.not_le.mpr unsent)]
      by_cases full : room = 0#32
      · simp [full]
      · rw [if_neg full]
        dsimp only
        rw [tcpEmitSegment_isSome net env .fresh u u.sndNxt _ rfl, peer, gather_chunk]
        · simp [unsent, full]
        · rw [← len] at unsent
          exact unsent
        · rw [← Tcb.bufLen, len]
          unfold minWord
          grind
    · rw [if_pos (BitVec.not_lt.mp unsent), ite_self]
      simp [unsent]

end Emission

variable {t : Tcb}

section Repeated

/-- A segment of the connection whose bytes and FIN all lie below rcv_nxt. -/
structure Repeats (s : Tcb) (seg : Segment) : Prop where
  port : seg.dstPort = s.localPort
  peer : s.fromPeer seg = true
  carries : seg.payload ≠ [] ∨ seg.flags.fin = true
  below : ((seg.payload.length + seg.flags.fin.toNat : Nat) : Int) ≤ (s.rcvNxt - seg.seq).toInt

/-- rcv_nxt and what went up stay as they are, in this pass and in what waits behind its emission, and
a segment that acknowledges rcv_nxt is sent. -/
structure Reacked (net : Interfaces) (env : Env) (s : Tcb) (seg : Segment) : Prop where
  rcv : (arrive net env s seg).tcb.rcvNxt = s.rcvNxt
  quiet : (arrive net env s seg).ups = []
  rest : ∀ (later : Env) (t : Tcb), t.rcvNxt = s.rcvNxt → ∀ frame ∈ (arrive net env s seg).sent.map (·.2),
    (resume net later t frame).tcb.rcvNxt = s.rcvNxt ∧ (resume net later t frame).ups = []
  acked : ∃ out ∈ (arrive net env s seg).segments, out.flags.ack = true ∧ out.ack = s.rcvNxt

section

variable (old : Repeats s seg)
include old

theorem Repeats.seq_ne : seg.seq ≠ s.rcvNxt := by
  intro first
  have below := old.below
  rw [first] at below
  have positive : 0 < seg.payload.length + seg.flags.fin.toNat := by
    rcases old.carries with payload | fin
    · exact Nat.add_pos_left (List.length_pos_iff.mpr payload) _
    · simp [fin]
  simp at below
  omega

theorem Repeats.fin_ne (fin : seg.flags.fin = true) : seg.seq + seg.len ≠ s.rcvNxt := by
  intro inOrder
  have below := old.below
  have gap : s.rcvNxt - seg.seq = seg.len := by
    rw [← inOrder]
    simp
  have bound : seg.len.toInt ≤ seg.payload.length := by
    rw [Segment.len, BitVec.toInt_eq_toNat_cond, BitVec.toNat_ofNat]
    split <;> omega
  rw [gap, fin] at below
  simp at below
  omega

/-- A repeated segment brings no data and no FIN. -/
theorem inputData_old (same : t.rcvNxt = s.rcvNxt) : inputData net env t seg = .ret t [] := by
  rw [inputData, if_neg (fun taken => old.seq_ne (taken.2.1.trans same)), inputFin,
    if_neg (fun taken => old.fin_ne taken.1 (taken.2.trans same))]

theorem afterAck_old (same : t.rcvNxt = s.rcvNxt) : ∃ t', t'.rcvNxt = s.rcvNxt ∧ afterAck net env t seg = .ret t' [] :=
  have kept := (ackState_idle env t).rcv.trans same
  ⟨_, kept, inputData_old net env old kept⟩

/-- What a pass over a repeated segment does: it returns, or it waits in the emission of pending bytes,
which acknowledges rcv_nxt. -/
inductive Repeated (s : Tcb) (seg : Segment) : Bool → Res → Prop where
  | silent {t : Tcb} : t.rcvNxt = s.rcvNxt → Repeated s seg false (.ret t [])
  | sends {t : Tcb} {out : Segment} {n : Nat} : t.rcvNxt = s.rcvNxt → out.flags.ack = true → out.ack = s.rcvNxt →
      Repeated s seg true ⟨t, [], some (out, .trySend n (.input seg))⟩

theorem trySendLoop_old (same : t.rcvNxt = s.rcvNxt) :
    Repeated s seg (sendsOn net env t) (trySendLoop net env t (.input seg)) := by
  have done : Repeated s seg false (continueAfter net env (t.setInSend false) (.input seg)) := by
    obtain ⟨t', kept, ends⟩ := afterAck_old net env old (show (t.setInSend false).rcvNxt = _ from same)
    rw [continueAfter, ends]
    exact .silent kept
  rw [sendsOn, trySendLoop]
  cases trySendChunk t with
  | none => exact done
  | some data =>
    cases sent : tcpEmitSegment net env .fresh t t.sndNxt flagAckPsh data with
    | none =>
      simp only [sent]
      exact done
    | some out =>
      have built := tcpEmitSegment_eq sent
      simp only [sent]
      exact .sends same (by rw [built]; rfl) (by rw [built]; exact same)

end

theorem Repeated.rcv {sends : Bool} {res : Res} (repeated : Repeated s seg sends res) :
    res.tcb.rcvNxt = s.rcvNxt ∧ res.ups = [] := by
  cases repeated with
  | silent same | sends same _ _ => exact ⟨same, rfl⟩

theorem resume_old (old : Repeats s seg) (same : t.rcvNxt = s.rcvNxt) (n : Nat) :
    (resume net env t (.trySend n (.input seg))).tcb.rcvNxt = s.rcvNxt ∧
      (resume net env t (.trySend n (.input seg))).ups = [] := by
  have counted : (trySendCount env t n).rcvNxt = s.rcvNxt := by
    rw [trySendCount]
    split
    · exact same
    · exact same
  exact (trySendLoop_old net env old counted).rcv

theorem Repeated.reacked {sends : Bool} (old : Repeats s seg) (repeated : Repeated s seg sends (arrive net env s seg)) :
    Reacked net env s seg ↔ sends = true := by
  generalize ran : arrive net env s seg = res at repeated
  cases repeated with
  | silent same =>
    refine ⟨fun reacked => ?_, fun h => by cases h⟩
    obtain ⟨out, sent, -⟩ := reacked.acked
    rw [ran] at sent
    cases sent
  | @sends t out n same ack number =>
    refine ⟨fun _ => rfl, fun _ => ⟨by rw [ran]; exact same, by rw [ran], ?_, ?_⟩⟩
    · intro later t same frame waits
      rw [ran] at waits
      cases waits
      exact resume_old net later old same n
    · rw [ran]
      exact ⟨out, List.mem_singleton_self out, ack, number⟩

/-- The segment's acknowledgement lets pending bytes out. -/
def releases (net : Interfaces) (env : Env) (s : Tcb) (seg : Segment) : Bool :=
  !seg.flags.rst && seg.flags.ack && advances s seg && !s.inSend && s.state.sending &&
    letsOut net env s seg

theorem inputConnected_old (old : Repeats s seg) (rst : seg.flags.rst = false) :
    Repeated s seg (releases net env s seg) (inputConnected net env (trackWindow s seg) seg) := by
  have silent {t : Tcb} (same : t.rcvNxt = s.rcvNxt) : Repeated s seg false (afterAck net env t seg) := by
    obtain ⟨t', kept, ends⟩ := afterAck_old net env old same
    rw [ends]
    exact .silent kept
  rw [inputConnected, if_neg (by rw [show (trackWindow s seg).fromPeer seg = true from old.peer]; decide),
    releases, rst, ← sendsOn_ackAdvance]
  cases ack : seg.flags.ack with
  | false =>
    rw [show inputData net env (trackWindow s seg) seg = _ from inputData_old net env old rfl]
    exact .silent rfl
  | true =>
    rw [show advances (trackWindow s seg) seg = advances s seg from rfl]
    cases advances s seg with
    | true =>
      have acked := ackAdvance_acked env (trackWindow s seg) seg.ack
      have inSend : (ackAdvance env (trackWindow s seg) seg.ack).inSend = s.inSend := acked.inSend
      have state : (ackAdvance env (trackWindow s seg) seg.ack).state = s.state := acked.state
      rw [tcpTrySendPending, inSend, state]
      cases s.inSend with
      | true => exact silent acked.rcv
      | false =>
        cases s.state.sending with
        | true => exact trySendLoop_old net env old acked.rcv
        | false => exact silent acked.rcv
    | false =>
      -- a segment with data or a FIN never counts as a duplicate acknowledgement
      have plain : isDupAck (trackWindow s seg) seg = false := by
        rcases old.carries with payload | fin
        · simp [isDupAck, payload]
        · simp [isDupAck, fin]
      rw [plain]
      exact silent rfl

/-- A repeated segment is acknowledged again exactly when its own acknowledgement lets pending bytes
out, which then carry rcv_nxt. -/
theorem repeat_acked_iff_releases (net : Interfaces) (env : Env) (s : Tcb) (seg : Segment)
    (state : s.state = .established ∨ s.state = .closeWait ∨ s.state = .finWait2 ∨ s.state = .lastAck)
    (old : Repeats s seg) : Reacked net env s seg ↔ releases net env s seg = true := by
  have connected : s.state.connected = true := by
    rcases state with h | h | h | h <;> rw [h] <;> rfl
  have processed := arrive_connected net env old.port connected
  cases rst : seg.flags.rst with
  | false =>
    apply Repeated.reacked net env old
    rw [processed]
    exact inputConnected_old net env old rst
  | true =>
    -- a reset ends the connection without an answer
    refine ⟨fun reacked => ?_, fun lets => by simp [releases, rst] at lets⟩
    obtain ⟨out, sent, -⟩ := reacked.acked
    rw [processed, inputConnected, if_neg (by rw [show (trackWindow s seg).fromPeer seg = true from old.peer]; decide),
      if_pos rst] at sent
    cases sent

/-- The peer announced a window of one byte; it repeats its own byte and acknowledges the one that
got through, which lets the second out. -/
theorem repeat_acked_window : ∃ c, Reach lan (fun _ _ _ => True) c ∧
    Reacked lan (.calm 5#32) c.tcb (fromLan flagAckPsh 100#32 2#32 [7#8]) := by
  let steps := openLan ++
    [(Env.calm 3#32, Label.arrive { fromLan flagAckPsh 100#32 1#32 [7#8] with window := 1#16 }),
     (Env.calm 3#32, Label.resume),
     (Env.calm 4#32, Label.event (.dataReq ⟨[[1#8, 2#8]], oneTwo_small⟩)),
     (Env.calm 4#32, Label.resume)]
  refine ⟨run lan fresh steps, .run steps .start (by decide +kernel), ?_⟩
  apply (repeat_acked_iff_releases lan _ _ _ (by decide +kernel) _).mpr
  · decide +kernel
  · constructor <;> decide +kernel

/-- An established receiver is sent its one byte again and stays silent. -/
theorem repeat_unanswered : ∃ c, Reach lan (fun _ _ _ => True) c ∧ c.stack = [] ∧ c.tcb.state = .established ∧
    Repeats c.tcb (fromLan flagAckPsh 100#32 1#32 [7#8]) ∧
    (arrive lan (.calm 4#32) c.tcb (fromLan flagAckPsh 100#32 1#32 [7#8])).segments = [] ∧
    ¬ Reacked lan (.calm 4#32) c.tcb (fromLan flagAckPsh 100#32 1#32 [7#8]) := by
  let steps := openLan ++
    [(Env.calm 3#32, Label.arrive (fromLan flagAckPsh 100#32 1#32 [7#8])), (Env.calm 3#32, Label.resume)]
  have silent : (arrive lan (.calm 4#32) (run lan fresh steps).tcb (fromLan flagAckPsh 100#32 1#32 [7#8])).segments =
      [] := by
    decide +kernel
  refine ⟨run lan fresh steps, .run steps .start (by decide +kernel), by decide +kernel, by decide +kernel,
    by constructor <;> decide +kernel, silent, fun reacked => ?_⟩
  obtain ⟨out, sent, -⟩ := reacked.acked
  rw [silent] at sent
  cases sent

end Repeated

end Kappara.Tcp
