import Kappara.Tcp.Sequence

/-! Whether the retransmission timer runs exactly while something is
outstanding.

The send loop and a retransmission set the timer after ip_send has returned, so
the timer means something only when neither of them is pending. What they find
when they go on, and the paths that give a connection up or acknowledge its
data without looking at the timer, make up the condition on a run. -/

set_option autoImplicit false

namespace Kappara.Tcp

open BlockChain Net Serial

-- The states in which a SYN, data or a FIN may wait for its acknowledgement.
def TcpState.timed : TcpState → Bool
  | .synSent | .synReceived | .established | .closeWait | .finWait1 | .lastAck | .closing => true
  | _ => false

def TimerExact (s : Tcb) : Prop := s.rtoExpires ≠ 0#32 ↔ s.state.timed = true ∧ s.sndUna ≠ s.sndNxt

instance (s : Tcb) : Decidable (TimerExact s) := inferInstanceAs (Decidable (_ ↔ _))

-- The same of the four values it depends on; in FIN_WAIT_2 the FIN has been acknowledged.
structure TimerAt (state : TcpState) (expires una nxt : Word) : Prop where
  armed : expires ≠ 0#32 ↔ state.timed = true ∧ una ≠ nxt
  rested : state = .finWait2 → una = nxt

def Punctual (s : Tcb) : Prop := TimerAt s.state s.rtoExpires s.sndUna s.sndNxt

-- Frames that set the timer when they go on.
def Frame.rearms : Frame → Bool
  | .trySend _ _ => true
  | .rtx _ _ => true
  | _ => false

def waiting (stack : List Frame) : Bool := stack.any Frame.rearms

-- A pass leaves the timer right unless it waits in a frame that will set it.
def Res.Punctual (res : Res) : Prop := waiting (res.sent.map (·.2)).toList = false → Tcp.Punctual res.tcb

section Timer

variable {state state' : TcpState} {expires una nxt : Word}

theorem TimerAt.cancelled (done : state.timed = true ∨ state = .finWait2 → una = nxt) : TimerAt state 0#32 una nxt := by
  refine ⟨⟨fun armed => absurd rfl armed, fun ⟨timed, open_⟩ => absurd (done (.inl timed)) open_⟩, fun final => ?_⟩
  exact done (.inr final)

theorem TimerAt.running (armed : expires ≠ 0#32) (timed : state.timed = true) (open_ : una ≠ nxt) :
    TimerAt state expires una nxt := by
  refine ⟨⟨fun _ => ⟨timed, open_⟩, fun _ => armed⟩, ?_⟩
  rintro rfl
  cases timed

theorem TimerAt.moved (timer : TimerAt state expires una nxt) (same : state'.timed = state.timed)
    (other : state' ≠ .finWait2) : TimerAt state' expires una nxt :=
  ⟨same ▸ timer.armed, fun final => absurd final other⟩

theorem TimerAt.stopped (untimed : state.timed = false) (other : state ≠ .finWait2) : TimerAt state 0#32 una nxt := by
  apply TimerAt.cancelled
  rintro (timed | final)
  · rw [untimed] at timed
    cases timed
  · exact absurd final other

end Timer

variable {ups : List Ind} {flags : Flags}

section Delivery

variable {net : Interfaces} {env : Env} {s : Tcb} {next : Res}

theorem Punctual.ret (punctual : Punctual s) : (Res.ret s ups).Punctual := fun _ => punctual

theorem send_punctual {emitted : Option Segment} {frame : Frame}
    (here : frame.rearms = false → Punctual s) (there : next.Punctual) :
    (Res.send ups s emitted frame next).Punctual := by
  cases emitted with
  | none => exact there
  | some seg =>
    intro quiet
    apply here
    simpa [waiting] using quiet

theorem finState_punctual (punctual : Punctual s) : Punctual (finState env s) := by
  unfold Punctual at punctual
  unfold finState
  split
  next state =>
    rw [state] at punctual
    exact punctual.moved rfl (by simp)
  next state =>
    rw [state] at punctual
    exact punctual.moved rfl (by simp)
  next state => exact .stopped rfl (by simp [tcpEnterTimeWait, tcpCancelRto])
  · exact punctual

theorem punctual_keeps : Keeps env Punctual := ⟨fun _ punctual => punctual, finState_punctual⟩

-- The FIN has been acknowledged and the state does not say so yet.
def FinCovered (s : Tcb) : Prop := s.sndUna = s.sndNxt ∧ (s.state = .finWait1 ∨ s.state = .lastAck)

theorem ackState_punctual (before : Punctual s ∨ FinCovered s) : Punctual (ackState env s) := by
  have covered {state : TcpState} (same : s.sndUna = s.sndNxt) :
      Punctual ((tcpCancelRto (sampleRtt env s)).setState state) := by
    obtain ⟨_, _, _, _, eq⟩ := sampleRtt_eq env s
    rw [eq]
    exact .cancelled fun _ => same
  unfold ackState
  split
  next same =>
    split
    · exact covered same
    · exact .stopped rfl (by simp [tcpEnterTimeWait, tcpCancelRto])
    · exact covered same
    next first _ last =>
      rcases before with punctual | ⟨_, final | final⟩
      · exact punctual
      · exact absurd final first
      · exact absurd final last
  next open_ =>
    rcases before with punctual | ⟨same, _⟩
    · exact punctual
    · exact absurd same open_

theorem afterAck_punctual (seg : Segment) (before : Punctual s ∨ FinCovered s) : (afterAck net env s seg).Punctual :=
  fun _ => punctual_keeps.afterAck seg (ackState_punctual before)

section

variable (after : After) (punctual : Punctual s)
include after punctual

theorem continueAfter_punctual : (continueAfter net env s after).Punctual :=
  fun _ => punctual_keeps.continueAfter after punctual (ackState_punctual (.inl punctual))

theorem trySendLoop_punctual : (trySendLoop net env s after).Punctual := by
  have done : (continueAfter net env (s.setInSend false) after).Punctual := continueAfter_punctual after punctual
  rw [trySendLoop]
  split
  · exact done
  · apply send_punctual
    · intro quiet
      cases quiet
    · exact done

theorem tcpTrySendPending_punctual : (tcpTrySendPending net env s after).Punctual := by
  rw [tcpTrySendPending]
  split
  · exact continueAfter_punctual after punctual
  · exact trySendLoop_punctual after punctual

end

end Delivery

section Acknowledgement

variable {net : Interfaces} {env : Env} {s : Tcb} {ack : Word} {seg : Segment}

/-- An acknowledgement in order lies between snd_una and snd_nxt. -/
theorem SendInv.between (inv : SendInv s 0) (mode : s.state.mode = .sending ∨ s.state.mode = .ended)
    (ahead : 0 < (ack - s.sndUna).toInt) (covered : le ack s.sndNxt) :
    0 < dist s.sndUna ack ∧ dist s.sndUna ack ≤ dist s.sndUna s.sndNxt := by
  have near : dist s.sndUna s.sndNxt ≤ size s.sndBuf + 1 := by
    apply inv.near
    rcases mode with mode | mode <;> simp [mode]
  have small := inv.small
  refine ⟨?_, dist_of_le covered ahead (by omega)⟩
  by_contra none
  have same : ack = s.sndUna := eq_of_dist_zero s.sndUna (by omega)
  rw [same] at ahead
  simp at ahead

theorem eq_of_dist_eq {u a b : Word} (same : dist u a = dist u b) : a = b := by
  have equal : a - u = b - u := BitVec.eq_of_toNat_eq same
  grind

/-- What a FIN or data left outstanding needs of an acknowledgement: that it reaches snd_nxt, or leaves
data in the buffer to set the timer for. -/
theorem ackAdvance_punctual (punctual : Punctual s) (inv : SendInv s 0) (connected : s.state.connected = true)
    (ahead : 0 < (ack - s.sndUna).toInt) (covered : le ack s.sndNxt)
    (ok : s.sndBuf ≠ [] → ack = s.sndNxt ∨ (ack - s.sndUna < s.bufLen ∧ env.tick + s.rtoTicks ≠ 0#32)) :
    Punctual (ackAdvance env s ack) ∨ FinCovered (ackAdvance env s ack) := by
  have mode := mode_connected connected
  obtain ⟨some, within⟩ := inv.between mode ahead covered
  have timed : s.state.timed = true := by
    by_contra untimed
    have state : s.state = .finWait2 := by
      cases state : s.state <;> simp_all [TcpState.connected, TcpState.timed]
    rw [punctual.rested state] at some within
    rw [dist_self] at within
    omega
  have advance := ackAdvance_advance env s ack
  generalize ackAdvance env s ack = s' at advance ⊢
  cases advance with
  | empty empty =>
    -- Only a FIN can be outstanding, and the state is still to follow.
    right
    have ended : s.state.mode = .ended := by
      apply mode.resolve_left
      intro sending
      have flight := inv.flight sending
      rw [sentEnd_zero, empty] at flight
      exact absurd (Nat.le_trans within flight) (by simp only [size]; omega)
    have last := inv.closing ended
    rw [sentEnd_zero, empty] at last
    refine ⟨eq_of_dist_eq (u := s.sndUna) ?_, ?_⟩
    · simp only [size] at last
      show dist s.sndUna ack = dist s.sndUna s.sndNxt
      omega
    · cases state : s.state <;> simp_all [TcpState.connected, TcpState.timed, TcpState.mode]
  | all buffered all =>
    have reached := (ok buffered).resolve_right fun left => BitVec.not_le.mpr left.1 all
    exact .inl (.cancelled fun _ => reached)
  | part buffered part =>
    left
    have start := inv.start (by rcases mode with mode | mode <;> simp [mode]) buffered
    have rest : s.sndNxt - s.sndBufSeq - (ack - s.sndUna) = s.sndNxt - ack := by
      grind
    rw [rest]
    by_cases reached : ack = s.sndNxt
    · rw [reached, BitVec.sub_self]
      exact .cancelled fun _ => rfl
    · have positive : 0#32 < s.sndNxt - ack := by
        by_contra none
        grind
      rw [if_pos positive]
      exact .running ((ok buffered).resolve_left reached).2 timed reached

theorem inputDupAck_punctual (punctual : Punctual s) : (inputDupAck net env s seg).Punctual := by
  rw [inputDupAck]
  split
  · exact send_punctual (fun _ => punctual) (afterAck_punctual seg (.inl punctual))
  · split
    · exact tcpTrySendPending_punctual _ punctual
    · exact afterAck_punctual seg (.inl punctual)

/-- The send loop after an acknowledgement: where it may not send, the state follows at once. -/
theorem tcpTrySendPending_covered (before : Punctual s ∨ FinCovered s) :
    (tcpTrySendPending net env s (.input seg)).Punctual := by
  rcases before with punctual | covered
  · exact tcpTrySendPending_punctual _ punctual
  · rw [tcpTrySendPending, if_pos]
    · exact afterAck_punctual seg (.inr covered)
    · rcases covered.2 with state | state <;> simp [state, TcpState.sending]

-- What a segment of the peer must not do while the timer runs.
structure Minds (s : Tcb) (env : Env) (seg : Segment) : Prop where
  reset : seg.flags.rst = true → s.rtoExpires = 0#32
  covered : seg.flags.rst = false → seg.flags.ack = true → advances s seg = true → s.sndBuf ≠ [] →
    seg.ack = s.sndNxt ∨ (seg.ack - s.sndUna < s.bufLen ∧ env.tick + s.rtoTicks ≠ 0#32)

instance (s : Tcb) (env : Env) (seg : Segment) : Decidable (Minds s env seg) :=
  decidable_of_iff (_ ∧ _) ⟨fun both => ⟨both.1, both.2⟩, fun minds => ⟨minds.reset, minds.covered⟩⟩

section

variable (punctual : Punctual s)
include punctual

theorem inputConnected_punctual (inv : SendInv s 0) (connected : s.state.connected = true)
    (orderly : s.fromPeer seg = true → seg.flags.rst = false → seg.flags.ack = true → advances s seg = true →
    le seg.ack s.sndNxt)
    (minds : s.fromPeer seg = true → Minds s env seg) : (inputConnected net env s seg).Punctual := by
  rw [inputConnected]
  split
  · exact punctual.ret
  next peer =>
    rw [Bool.not_eq_true, Bool.not_eq_false'] at peer
    split
    next reset =>
      apply Punctual.ret
      have off : (s.setState .closed).rtoExpires = 0#32 := (minds peer).reset reset
      rw [Punctual, off]
      exact .stopped rfl (by simp)
    next notReset =>
      rw [Bool.not_eq_true] at notReset
      split
      next flag =>
        split
        next newer =>
          apply tcpTrySendPending_covered
          apply ackAdvance_punctual punctual inv connected (of_decide_eq_true newer)
          · exact orderly peer notReset flag newer
          · exact (minds peer).covered notReset flag newer
        · split
          · exact inputDupAck_punctual punctual
          · exact afterAck_punctual seg (.inl punctual)
      · exact fun _ => punctual_keeps.inputData seg punctual

theorem inputSynSent_punctual : (inputSynSent net env s seg).Punctual := by
  rw [inputSynSent]
  split
  next accepted =>
    have opened : Punctual (connectBlock net env s seg) := by
      obtain ⟨_, _, _, _, eq⟩ := sampleRtt_eq env s
      rw [connectBlock, eq]
      exact .cancelled fun _ => accepted.2.2.1
    exact fun _ => plain_tcb .control (fun s' => .ret s' _) (countSegment_ack _) opened opened
  · exact punctual.ret

theorem inputSynReceived_punctual : (inputSynReceived env s seg).Punctual := by
  rw [inputSynReceived]
  split
  next accepted =>
    apply Punctual.ret
    obtain ⟨_, _, _, _, eq⟩ := sampleRtt_eq env s
    rw [establishBlock, eq]
    exact .cancelled fun _ => accepted.2.1
  · exact punctual.ret

theorem inputListen_punctual : (inputListen env s seg).Punctual := by
  rw [inputListen]
  split
  · exact Punctual.ret punctual
  · exact punctual.ret

theorem arrive_punctual (inv : SendInv s 0)
    (orderly : seg.dstPort = s.localPort → s.state.connected = true → s.fromPeer seg = true → seg.flags.rst = false →
    seg.flags.ack = true → advances s seg = true → le seg.ack s.sndNxt)
    (minds : seg.dstPort = s.localPort → s.state.connected = true → s.fromPeer seg = true → Minds s env seg) :
    (arrive net env s seg).Punctual := by
  have windowed : Punctual (trackWindow s seg) := punctual
  apply arrive_elim
  case dropped => exact punctual.ret
  case listen => exact fun _ => inputListen_punctual punctual
  case ignored => exact fun _ => windowed.ret
  case synSent => exact fun _ _ => inputSynSent_punctual windowed
  case synReceived => exact fun _ _ => inputSynReceived_punctual windowed
  case timeWait => exact fun _ _ _ => inputTimeWait_tcb seg windowed
  case connected =>
    intro port open_
    apply inputConnected_punctual windowed (inv.held (trackWindow_idle s seg).toHeld) open_
    · exact orderly port open_
    · intro peer
      obtain ⟨reset, covered⟩ := minds port open_ peer
      exact ⟨reset, covered⟩

end

end Acknowledgement

-- The deadline tcp_arm_rto would set; zero means that no timer runs.
def deadline (env : Env) (s : Tcb) : Word := env.tick + if s.rtoTicks = 0#32 then tcpRtoInitial else s.rtoTicks

-- The next round of the send loop hands a segment to the interface.
def sendsOn (net : Interfaces) (env : Env) (s : Tcb) : Bool :=
  match trySendChunk s with
  | none => false
  | some data => (tcpEmitSegment net env .fresh s s.sndNxt flagAckPsh data).isSome

-- The timer fires and the connection is not given up.
def Fires (s : Tcb) (now : Word) : Prop :=
  s.rtoExpires ≠ 0#32 ∧ 0 ≤ (now - s.rtoExpires).toInt ∧ s.retransmitCount < tcpMaxRetransmits

instance (s : Tcb) (now : Word) : Decidable (Fires s now) := inferInstanceAs (Decidable (_ ∧ _ ∧ _))

-- What a frame that sets the timer has to find: that something is still outstanding.
def resumesTimely (net : Interfaces) (env : Env) (s : Tcb) : Frame → Prop
  | .trySend n _ => sendsOn net env { s with sndNxt := s.sentEnd n } = true ∨
      (s.state.sending = true ∧ s.sndUna ≠ s.sentEnd n ∧ (s.rtoExpires = 0#32 → deadline env s ≠ 0#32))
  | .rtx _ now => s.state.timed = true ∧ s.sndUna ≠ s.sndNxt ∧ now + s.rtoTicks ≠ 0#32
  | _ => True

-- What an event must not do: give a connection up whose timer runs, or meet a deadline that reads as none.
def handlesTimely (env : Env) (s : Tcb) : Event → Prop
  | .bindReq _ _ => s.bound = false → s.rtoExpires = 0#32
  | .disconReq => s.state ≠ .closing → s.rtoExpires = 0#32
  | .connReq _ _ _ => s.state = .bound → deadline env s ≠ 0#32
  | .accept _ _ _ => s.state = .closed → deadline env s ≠ 0#32
  | .ordrelReq => s.state.sending = true → deadline env s ≠ 0#32
  | .tick now => Fires s now → now + (rtxBackoff s).rtoTicks ≠ 0#32
  | _ => True

section Events

variable {net : Interfaces} {env : Env} {s : Tcb}

theorem Punctual.off (punctual : Punctual s) (untimed : s.state.timed = false) : s.rtoExpires = 0#32 := by
  by_contra armed
  have timed := (punctual.armed.mp armed).1
  rw [untimed] at timed
  cases timed

theorem countSegment_expires (env : Env) (s : Tcb) (flags : Flags) (one : flags.syn = !flags.fin) :
    (countSegment env s flags []).rtoExpires = deadline env s := by
  obtain ⟨fin, syn, rst, psh, ack, urg⟩ := flags
  obtain rfl : syn = !fin := one
  cases fin <;> rfl

/-- A SYN or FIN that takes its number starts the timer; one that does not leaves the block. -/
theorem sendLast_counted_punctual (one : flags.syn = !flags.fin) (punctual : Punctual s)
    (timed : s.state.timed = true) (open_ : s.sndUna ≠ s.sndNxt + 1#32) (armed : deadline env s ≠ 0#32) :
    (sendLast net env s flags).Punctual := by
  intro quiet
  generalize sent : sendLast net env s flags = res at quiet ⊢
  cases sent ▸ control_spec net env s flags with
  | skipped => exact punctual
  | counted =>
    have counted := countSegment_counted env s flags one
    rw [Punctual, counted.state, counted.una, counted.nxt, countSegment_expires env s flags one]
    exact .running armed timed open_

/-- The SYN that starts a connection on a block whose timer is off. -/
theorem sendLast_first_punctual (one : flags.syn = !flags.fin) (off : s.rtoExpires = 0#32)
    (first : s.sndUna = s.sndNxt) (timed : s.state.timed = true) (armed : deadline env s ≠ 0#32) :
    (sendLast net env s flags).Punctual := by
  apply sendLast_counted_punctual one _ timed _ armed
  · rw [Punctual, off]
    exact .cancelled fun _ => first
  · grind

section

variable (punctual : Punctual s)
include punctual

theorem rejectLoop_punctual (fuel : Nat) : (rejectLoop net env fuel s).Punctual :=
  fun _ => rejectLoop_tcb fuel (fun _ _ _ kept => kept) (fun _ kept => kept) punctual

theorem handleDisconReq_punctual (ok : s.state ≠ .closing → s.rtoExpires = 0#32) :
    (handleDisconReq net env s).Punctual := by
  apply handleDisconReq_elim punctual.ret fun _ => rejectLoop_punctual punctual _
  intro aborts
  refine fun _ => sendLast_plain (countSegment_rst _) ?_
  have off : (s.setState .closed).rtoExpires = 0#32 := ok fun closing => by rw [closing] at aborts; cases aborts
  rw [Punctual, off]
  exact .stopped rfl (by simp)

theorem retransmit_punctual (now : Word) (ok : Fires s now → now + (rtxBackoff s).rtoTicks ≠ 0#32) :
    (retransmit net env s now).Punctual := by
  apply retransmit_elim punctual.ret
  case waited =>
    intro state
    apply Punctual.ret
    rw [punctual.off (by rw [state]; rfl)]
    exact .stopped rfl (by simp)
  case gaveUp => exact fun _ _ => Punctual.ret (TimerAt.stopped rfl (by simp))
  case fires =>
    intro fired left
    obtain ⟨timed, open_⟩ := punctual.armed.mp fired.1
    have idle := rtxBackoff_idle s
    have state : (rtxBackoff s).state = s.state := by
      unfold rtxBackoff tcpCwndOnRto
      split <;> rfl
    have done : Punctual (rtxDone (rtxBackoff s) (s.retransmitCount + 1) now) := by
      apply TimerAt.running (ok ⟨fired.1, fired.2, left⟩)
      · exact state ▸ timed
      · show (rtxBackoff s).sndUna ≠ (rtxBackoff s).sndNxt
        rw [idle.una, idle.nxt]
        exact open_
    rw [rtxEmit]
    split
    · exact send_punctual (fun quiet => by cases quiet) done.ret
    · split
      · exact send_punctual (fun quiet => by cases quiet) done.ret
      · exact done.ret

theorem handle_punctual (e : Event) (inv : SendInv s 0) (ok : handlesTimely env s e) :
    (handle net env s e).Punctual := by
  apply handle_elim fun _ _ _ _ => punctual.ret
  case bindReq =>
    rintro _ _ rfl unbound _ _ _ _ either _
    apply Punctual.ret
    rw [ok unbound]
    rcases either with rfl | rfl <;> exact .stopped rfl (by simp)
  case connReq =>
    rintro ip port iss rfl bound
    have off : (openBlock s ip port iss).rtoExpires = 0#32 := punctual.off (by rw [bound]; rfl)
    exact sendLast_first_punctual rfl off rfl rfl (ok bound)
  case listenReq =>
    intro _ bound
    apply Punctual.ret
    unfold Punctual at punctual
    rw [bound] at punctual
    exact punctual.moved rfl (by simp)
  case connRes => exact fun _ => Punctual.ret punctual
  case accept =>
    rintro lport entry iss rfl closed
    have off : (acceptBlock net s lport entry iss).rtoExpires = 0#32 := punctual.off (by rw [closed]; rfl)
    exact sendLast_first_punctual rfl off rfl rfl (ok closed)
  case dataReq =>
    intro payload _ _ _ _
    apply tcpTrySendPending_punctual
    rw [appendBuf_eq]
    exact punctual
  case ordrelReq =>
    rintro state rfl sending either
    have timed : state.timed = true := by rcases either with rfl | rfl <;> rfl
    have flight := inv.flight (mode_sending sending)
    have small := inv.small
    rw [sentEnd_zero] at flight
    have same : s.state.timed = true := by cases state : s.state <;> simp_all [TcpState.sending, TcpState.timed]
    have moved : Punctual (s.setState state) := by
      refine TimerAt.moved punctual (timed.trans same.symm) ?_
      rintro rfl
      cases timed
    have open_ : s.sndUna ≠ s.sndNxt + 1#32 := by
      intro wrapped
      have next := dist_add s.sndUna 1 (a := s.sndNxt) (by omega)
      rw [← wrapped, dist_self] at next
      omega
    exact sendLast_counted_punctual rfl moved timed open_ (ok sending)
  case disconReq =>
    rintro rfl
    exact handleDisconReq_punctual punctual ok
  case drain => exact fun _ _ _ => sendLast_plain (countSegment_ack s) punctual
  case tick =>
    rintro now rfl
    exact retransmit_punctual punctual now ok

end

end Events

section Runs

variable {net : Interfaces} {env : Env} {s : Tcb} {below : List Frame} {c : Conf}

theorem sendsOn_waits (after : After) (more : sendsOn net env s = true) :
    waiting ((trySendLoop net env s after).sent.map (·.2)).toList = true := by
  cases chunk : trySendChunk s with
  | none =>
    rw [sendsOn, chunk] at more
    cases more
  | some data =>
    rw [sendsOn, chunk] at more
    rw [trySendLoop, chunk]
    obtain ⟨seg, emitted⟩ := Option.isSome_iff_exists.mp more
    simp [emitted, waiting, Frame.rearms]

theorem trySendCount_expires (env : Env) (s : Tcb) (n : Nat) (armed : s.rtoExpires = 0#32 → deadline env s ≠ 0#32) :
    (trySendCount env s n).rtoExpires ≠ 0#32 := by
  rw [trySendCount]
  split
  next off => exact armed off
  next on => exact on

/-- A round of the send loop has been counted: more goes out, or what went out is still outstanding. -/
theorem resume_trySend_punctual (n : Nat) (after : After) (ok : resumesTimely net env s (.trySend n after)) :
    (resume net env s (.trySend n after)).Punctual := by
  have expires := trySendCount_expires env s n
  obtain ⟨ticks, expiry, tick, flags, count, eq⟩ := trySendCount_eq env s n
  rw [eq] at expires
  rw [resume, eq]
  rcases ok with more | ⟨sending, open_, armed⟩
  · intro quiet
    rw [sendsOn_waits after] at quiet
    · cases quiet
    · exact more
  · apply trySendLoop_punctual
    refine TimerAt.running (expires armed) ?_ open_
    cases state : s.state <;> simp_all [TcpState.sending, TcpState.timed]

theorem resume_punctual (frame : Frame) (punctual : frame.rearms = false → Punctual s)
    (ok : resumesTimely net env s frame) : (resume net env s frame).Punctual := by
  cases frame with
  | ret | connCon ip port | finAck => exact (punctual rfl).ret
  | fastRetransmit seg => exact afterAck_punctual seg (.inl (punctual rfl))
  | dataAck seg => exact fun _ => punctual_keeps.inputFin seg (punctual rfl)
  | reject => exact rejectLoop_punctual (s := (popPending s).2) (punctual rfl) _
  | rtx saved now => exact Punctual.ret (TimerAt.running ok.2.2 ok.1 ok.2.1)
  | trySend n after => exact resume_trySend_punctual n after ok

-- What keeps the timer right: sequence numbers in order, and none of the paths that forget the timer.
def timely (net : Interfaces) (c : Conf) (env : Env) (label : Label) : Prop :=
  orderly c env label ∧
    match label with
    | .arrive seg => waiting c.stack = false → seg.dstPort = c.tcb.localPort → c.tcb.state.connected = true →
        c.tcb.fromPeer seg = true → Minds c.tcb env seg
    | .event e => handlesTimely env c.tcb e
    | .resume =>
      match c.stack with
      | [] => True
      | frame :: below => waiting below = false → resumesTimely net env c.tcb frame

instance (net : Interfaces) (env : Env) (s : Tcb) : (frame : Frame) → Decidable (resumesTimely net env s frame)
  | .trySend _ _ => inferInstanceAs (Decidable (_ ∨ (_ ∧ _ ∧ (_ → _))))
  | .rtx _ _ => inferInstanceAs (Decidable (_ ∧ _ ∧ _))
  | .ret | .fastRetransmit _ | .connCon _ _ | .dataAck _ | .finAck | .reject => isTrue trivial

instance (env : Env) (s : Tcb) : (e : Event) → Decidable (handlesTimely env s e)
  | .bindReq _ _ | .disconReq | .connReq _ _ _ | .accept _ _ _ | .ordrelReq | .tick _ =>
    inferInstanceAs (Decidable (_ → _))
  | .listenReq | .connRes | .dataReq _ | .drain => isTrue trivial

instance timely.decidable (net : Interfaces) (c : Conf) (env : Env) (label : Label) :
    Decidable (timely net c env label) :=
  match label with
  | .arrive _ => inferInstanceAs (Decidable (_ ∧ (_ → _ → _ → _ → _)))
  | .event _ => inferInstanceAs (Decidable (_ ∧ _))
  | .resume =>
    match c with
    | ⟨_, []⟩ => inferInstanceAs (Decidable (_ ∧ True))
    | ⟨_, _ :: _⟩ => inferInstanceAs (Decidable (_ ∧ (_ → _)))

theorem Reach.mono {ok weaker : Conf → Env → Label → Prop} (reached : Reach net ok c)
    (implied : ∀ c env label, ok c env label → weaker c env label) : Reach net weaker c := by
  induction reached with
  | start => exact .start
  | next _ allowed ran ih => exact .next ih (implied _ _ _ allowed) ran

theorem gathered_of_waiting {stack : List Frame} (quiet : waiting stack = false) : gathered stack = 0 := by
  apply gathered_of_loops
  rw [loops, List.countP_eq_zero]
  intro frame member loop
  have rearms : frame.rearms = false := by
    rw [waiting, List.any_eq_false] at quiet
    simpa using quiet frame member
  cases frame <;> simp_all [Frame.looping, Frame.rearms]

theorem Reach.punctual (reached : Reach net (timely net) c) (quiet : waiting c.stack = false) : Punctual c.tcb := by
  induction reached with
  | start => exact .stopped rfl (by simp [fresh, tcpQopen])
  | @next c env label res below reached ok ran ih =>
    have inv := (reached.mono fun _ _ _ ok => ok.1).sendInv
    obtain ⟨ordered, minded⟩ := ok
    obtain ⟨s, stack⟩ := c
    rw [Res.conf, waiting, List.any_append, Bool.or_eq_false_iff] at quiet
    obtain ⟨top, rest⟩ := quiet
    cases label with
    | event e =>
      cases stack with
      | cons frame below => cases ran
      | nil =>
        cases ran
        exact handle_punctual (ih rfl) e inv minded top
    | arrive seg =>
      cases ran
      rw [gathered_of_waiting rest] at inv
      refine arrive_punctual (ih rest) inv ?_ (minded rest) top
      simpa [orderly, gathered_of_waiting rest] using ordered
    | resume =>
      cases stack with
      | nil => cases ran
      | cons frame below =>
        cases ran
        refine resume_punctual frame (fun plain => ih ?_) (minded rest) top
        rw [waiting, List.any_cons, plain]
        exact rest

/-- In a timely run, whenever nothing is pending, the retransmission timer runs exactly while a SYN, a
FIN or data of a connection is unacknowledged. -/
theorem timer_exact_when_quiet (net : Interfaces) (c : Conf) (reached : Reach net (timely net) c)
    (quiet : c.stack = []) : TimerExact c.tcb := by
  apply (reached.punctual _).armed
  rw [quiet]
  rfl

theorem timer_exact_half_acked :
    (run lan fresh halfAcked).tcb.rtoExpires ≠ 0#32 ∧ TimerExact (run lan fresh halfAcked).tcb :=
  ⟨by decide +kernel, timer_exact_when_quiet lan _ (.run halfAcked .start (by decide +kernel)) (by decide +kernel)⟩

/-- The acknowledgement of the last byte stops the timer although the FIN behind it is outstanding. -/
theorem outstanding_fin_without_timer : ∃ c, Reach lan (fun _ _ _ => True) c ∧ c.stack = [] ∧
    c.tcb.state = .finWait1 ∧ c.tcb.sndUna ≠ c.tcb.sndNxt ∧ ¬ TimerExact c.tcb := by
  let steps := openLan ++
    [(Env.calm 3#32, Label.event (.dataReq ⟨[[1#8]], one_small⟩)),
     (Env.calm 3#32, Label.resume),
     (Env.calm 4#32, Label.event .ordrelReq),
     (Env.calm 4#32, Label.resume),
     (Env.calm 5#32, Label.arrive (fromLan flagAck 100#32 2#32 []))]
  exact ⟨run lan fresh steps, .run steps .start (by decide +kernel), by decide +kernel, by decide +kernel,
    by decide +kernel, by decide +kernel⟩

end Runs

end Kappara.Tcp
