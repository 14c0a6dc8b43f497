import Kappara.Tcp.Frames
import Kappara.Tcp.System

/-! What a pass does to the place of its block among the streams.

Where a segment goes is decided by the bind, the port, the peer and the kind of
state of each block. Most passes leave all of them alone or close the block; the
others are named here. -/

set_option autoImplicit false

namespace Kappara.Tcp

open Net

-- How a state moves without a handshake: not at all, within the synchronized states, or to CLOSED.
inductive Drifts : TcpState → TcpState → Prop where
  | same {state : TcpState} : Drifts state state
  | synced {state state' : TcpState} : state.synced = true → state'.synced = true → Drifts state state'
  | closed {state : TcpState} : state ≠ .listen → Drifts state .closed

-- What decides where a segment goes stayed, except that the state may have drifted; outside the
-- synchronized states the remote fields may be scratch.
structure Stays (s s' : Tcb) : Prop where
  bound : s'.bound = s.bound
  port : s'.localPort = s.localPort
  remote : s'.state.synced = true → s'.remoteIp = s.remoteIp ∧ s'.remotePort = s.remotePort
  backlog : s'.pendingCount ≤ s.pendingCount
  drifts : Drifts s.state s'.state

section Drift

variable {state state' state'' : TcpState} {s s' s'' : Tcb}

theorem Drifts.listen (drifts : Drifts state state') : state' = .listen ↔ state = .listen := by
  cases drifts with
  | same => rfl
  | synced before after =>
    constructor
    · rintro rfl
      cases after
    · rintro rfl
      cases before
  | closed other => exact ⟨fun listening => (nomatch listening), fun listening => absurd listening other⟩

theorem Drifts.synced_of (drifts : Drifts state state') (after : state'.synced = true) : state.synced = true := by
  cases drifts with
  | same => exact after
  | synced before _ => exact before
  | closed => cases after

theorem Drifts.live_of (drifts : Drifts state state') (after : state'.live = true) : state.live = true := by
  cases drifts with
  | same => exact after
  | synced before _ => cases state <;> first | rfl | cases before
  | closed => cases after

theorem Drifts.trans (first : Drifts state state') (second : Drifts state' state'') : Drifts state state'' := by
  cases second with
  | same => exact first
  | synced before after => exact .synced (first.synced_of before) after
  | closed other => exact .closed fun listening => other (first.listen.mpr listening)

theorem Stays.refl (s : Tcb) : Stays s s := ⟨rfl, rfl, fun _ => ⟨rfl, rfl⟩, Nat.le_refl _, .same⟩

theorem Stays.trans (first : Stays s s') (second : Stays s' s'') : Stays s s'' where
  bound := second.bound.trans first.bound
  port := second.port.trans first.port
  remote synced := by
    obtain ⟨ip, peer⟩ := first.remote (second.drifts.synced_of synced)
    obtain ⟨ip', peer'⟩ := second.remote synced
    exact ⟨ip'.trans ip, peer'.trans peer⟩
  backlog := Nat.le_trans second.backlog first.backlog
  drifts := first.drifts.trans second.drifts

end Drift

section Passes

variable {net : Interfaces} {env : Env} {s s₀ : Tcb} {seg : Segment}

theorem setState_stays {state : TcpState} (drifts : Drifts s.state state) : Stays s (s.setState state) :=
  ⟨rfl, rfl, fun _ => ⟨rfl, rfl⟩, Nat.le_refl _, drifts⟩

theorem sampleRtt_stays (env : Env) (s : Tcb) : Stays s (sampleRtt env s) := by
  obtain ⟨_, _, _, _, eq⟩ := sampleRtt_eq env s
  rw [eq]
  exact { Stays.refl _ with }

theorem tcpEnterTimeWait_stays (env : Env) (synced : s.state.synced = true) : Stays s (tcpEnterTimeWait env s) :=
  ⟨rfl, rfl, fun _ => ⟨rfl, rfl⟩, Nat.le_refl _, .synced synced rfl⟩

theorem ackState_stays (env : Env) (s : Tcb) : Stays s (ackState env s) := by
  have sampled := sampleRtt_stays env s
  have cancelled : Stays s (tcpCancelRto (sampleRtt env s)) := sampled.trans { Stays.refl _ with }
  have state : (tcpCancelRto (sampleRtt env s)).state = s.state := sampleRtt_state env s
  unfold ackState
  split
  · split
    next from_ =>
      refine cancelled.trans (setState_stays (.synced ?_ rfl))
      rw [state, from_]
      rfl
    next from_ =>
      refine sampled.trans (tcpEnterTimeWait_stays env ?_)
      rw [sampleRtt_state, from_]
      rfl
    next from_ =>
      refine cancelled.trans (setState_stays (.closed ?_))
      rw [state, from_]
      exact nofun
    · exact .refl s
  · exact .refl s

theorem finState_stays (env : Env) (s : Tcb) : Stays s (finState env s) := by
  unfold finState
  split
  next from_ => exact setState_stays (.synced (by rw [from_]; rfl) rfl)
  next from_ => exact setState_stays (.synced (by rw [from_]; rfl) rfl)
  next from_ => exact tcpEnterTimeWait_stays env (by rw [from_]; rfl)
  · exact .refl s

theorem ackAdvance_stays (env : Env) (s : Tcb) (ack : Word) : Stays s (ackAdvance env s ack) := by
  have advance := ackAdvance_advance env s ack
  generalize ackAdvance env s ack = s' at advance ⊢
  cases advance <;> exact { Stays.refl _ with }

theorem stays_bears (env : Env) (s₀ : Tcb) : Bears env (Stays s₀) where
  rcv _ stays := stays.trans { Stays.refl _ with }
  fin stays := stays.trans (finState_stays env _)
  covered stays := stays.trans (ackState_stays env _)
  guard _ stays := stays.trans { Stays.refl _ with }
  advance ack _ stays := stays.trans (ackAdvance_stays env _ ack)
  congest _ _ _ stays := stays.trans { Stays.refl _ with }

-- The state turned and nothing else that decides where a segment goes.
structure Turns (before after : TcpState) (s s' : Tcb) : Prop where
  before : s.state = before
  after : s'.state = after
  bound : s'.bound = s.bound
  port : s'.localPort = s.localPort
  backlog : s'.pendingCount = s.pendingCount

-- A listener may have queued a SYN.
structure Queues (s s' : Tcb) : Prop where
  before : s.state = .listen
  after : s'.state = .listen
  bound : s'.bound = s.bound
  port : s'.localPort = s.localPort

theorem inputSynSent_turns (s : Tcb) (seg : Segment) (state : s.state = .synSent) :
    Stays s (inputSynSent net env s seg).tcb ∨ Turns .synSent .established s (inputSynSent net env s seg).tcb := by
  rw [inputSynSent]
  split
  · right
    obtain ⟨_, _, _, _, eq⟩ := sampleRtt_eq env s
    have turns : Turns .synSent .established s (connectBlock net env s seg) := by
      rw [connectBlock, eq]
      exact ⟨state, rfl, rfl, rfl, rfl⟩
    exact plain_tcb .control (fun s' => .ret s' _) (countSegment_ack _) turns turns
  · exact .inl (.refl s)

theorem inputSynReceived_stays (state : s.state = .synReceived) : Stays s (inputSynReceived env s seg).tcb := by
  rw [inputSynReceived]
  split
  · obtain ⟨_, _, _, _, eq⟩ := sampleRtt_eq env s
    rw [establishBlock, eq]
    exact ⟨rfl, rfl, fun _ => ⟨rfl, rfl⟩, Nat.le_refl _, .synced (by rw [state]; rfl) rfl⟩
  · exact .refl s

theorem inputListen_queues (state : s.state = .listen) : Queues s (inputListen env s seg).tcb := by
  rw [inputListen]
  split
  · exact ⟨state, state, rfl, rfl⟩
  · exact ⟨state, state, rfl, rfl⟩

theorem arrive_place (net : Interfaces) (env : Env) (s : Tcb) (seg : Segment) :
    Stays s (arrive net env s seg).tcb ∨ Turns .synSent .established s (arrive net env s seg).tcb ∨
      Queues s (arrive net env s seg).tcb := by
  have window : Stays s (trackWindow s seg) := { Stays.refl _ with }
  apply arrive_elim (P := fun res => Stays s res.tcb ∨ Turns .synSent .established s res.tcb ∨ Queues s res.tcb)
  case dropped => exact .inl (.refl s)
  case listen => exact fun state => .inr (.inr (inputListen_queues state))
  case ignored => exact fun _ => .inl window
  case synSent =>
    intro _ state
    rcases inputSynSent_turns (trackWindow s seg) seg state with stays | turns
    · exact .inl (window.trans stays)
    · exact .inr (.inl ⟨state, turns.after, turns.bound, turns.port, turns.backlog⟩)
  case synReceived => exact fun _ state => .inl (window.trans (inputSynReceived_stays state))
  case timeWait => exact fun _ _ => .inl (inputTimeWait_tcb seg window)
  case connected =>
    intro _ connected
    have other : s.state ≠ .listen := by
      intro listening
      rw [listening] at connected
      cases connected
    exact .inl ((stays_bears env s).inputConnected connected window fun _ _ =>
      window.trans (setState_stays (.closed other)))

theorem popPending_stays (s : Tcb) : Stays s (popPending s).2 :=
  ⟨rfl, rfl, fun _ => ⟨rfl, rfl⟩, Nat.sub_le _ _, .same⟩

theorem rejectLoop_stays (fuel : Nat) (dead : s.state.synced = false) : Stays s (rejectLoop net env fuel s).tcb := by
  have kept : (rejectLoop net env fuel s).tcb.state.synced = false ∧ Stays s (rejectLoop net env fuel s).tcb := by
    apply rejectLoop_tcb (P := fun s' => s'.state.synced = false ∧ Stays s s') fuel
    · intro s' ip port ⟨dead, stays⟩
      refine ⟨dead, stays.trans ⟨rfl, rfl, fun synced => ?_, Nat.le_refl _, .same⟩⟩
      rw [show s'.state.synced = true from synced] at dead
      cases dead
    · exact fun s' ⟨dead, stays⟩ => ⟨dead, stays.trans (popPending_stays s')⟩
    · exact ⟨dead, Stays.refl s⟩
  exact kept.2

theorem synced_of_mode {state : TcpState} (dead : state.mode = .dead) : state.synced = false := by
  cases state <;> first | rfl | cases dead

theorem resume_stays {frame : Frame} {below : List Frame} (shape : Shape ⟨s, frame :: below⟩) :
    Stays s (resume net env s frame).tcb := by
  cases frame with
  | ret | connCon ip port | finAck => exact .refl s
  | fastRetransmit seg => exact (stays_bears env s).afterAck seg (.refl s)
  | dataAck seg => exact (stays_bears env s).inputFin seg (.refl s)
  | reject =>
    have dead : s.state.synced = false := synced_of_mode (shape.reject List.mem_cons_self)
    exact (popPending_stays s).trans (rejectLoop_stays _ dead)
  | rtx saved now => exact { Stays.refl _ with }
  | trySend n after =>
    obtain ⟨_, _, _, _, _, eq⟩ := trySendCount_eq env s n
    rw [resume, eq]
    exact (stays_bears env s).trySendLoop after { Stays.refl _ with }

theorem countSegment_stays (env : Env) (s : Tcb) (flags : Flags) (one : flags.syn = !flags.fin) :
    Stays s (countSegment env s flags []) := by
  obtain ⟨fin, syn, rst, psh, ack, urg⟩ := flags
  obtain rfl : syn = !fin := one
  cases fin <;> exact { Stays.refl _ with }

theorem sendLast_stays {flags : Flags} (one : flags.syn = !flags.fin) : Stays s (sendLast net env s flags).tcb :=
  sendLast_tcb (.refl s) (countSegment_stays env s flags one)

theorem handleDisconReq_stays : Stays s (handleDisconReq net env s).tcb := by
  apply handleDisconReq_elim (P := fun res => Stays s res.tcb) (.refl s)
  · exact fun state => rejectLoop_stays _ (by rw [state]; rfl)
  · refine fun aborts => sendLast_plain (countSegment_rst _) (setState_stays (.closed fun listening => ?_))
    rw [listening] at aborts
    cases aborts

theorem rtxBackoff_stays (s : Tcb) : Stays s (rtxBackoff s) := by
  unfold rtxBackoff
  split <;> exact { Stays.refl _ with }

-- The timer fires once too often and the connection is given up.
def givesUp (s : Tcb) (now : Word) : Bool :=
  s.rtoExpires != 0#32 && 0 ≤ (now - s.rtoExpires).toInt && decide (tcpMaxRetransmits ≤ s.retransmitCount)

-- What a primitive of one stream does to its block's place.
inductive Placed (s s' : Tcb) : Event → Prop where
  | stays {e : Event} : Stays s s' → Placed s s' e
  | opens {ip : Ip} {port : Port} {iss : Word} : Turns .bound .synSent s s' → Placed s s' (.connReq ip port iss)
  | listens : Turns .bound .listen s s' → Placed s s' .listenReq
  | givenUp {now : Word} : givesUp s now = true → Turns .listen .closed s s' → Placed s s' (.tick now)

/-- A stale timer closes even a listener. -/
theorem retransmit_placed (now : Word) : Placed s (retransmit net env s now).tcb (.tick now) := by
  apply retransmit_elim (P := fun res => Placed s res.tcb (.tick now)) (.stays (.refl s))
  case waited =>
    exact fun state => .stays ⟨rfl, rfl, fun synced => (by cases synced), Nat.le_refl _, .closed (by simp [state])⟩
  case gaveUp =>
    intro fired spent
    by_cases state : s.state = .listen
    · refine .givenUp ?_ ⟨state, rfl, rfl, rfl, rfl⟩
      simp only [givesUp, Bool.and_eq_true, bne_iff_ne, decide_eq_true_eq]
      exact ⟨fired, spent⟩
    · exact .stays ⟨rfl, rfl, fun synced => (by cases synced), Nat.le_refl _, .closed state⟩
  case fires =>
    intro _ _
    have backoff := rtxBackoff_stays s
    exact .stays (rtxEmit_tcb backoff (backoff.trans { Stays.refl _ with }))

theorem handle_placed (e : Event) (alone : e.alone = true) : Placed s (handle net env s e).tcb e := by
  apply handle_elim (P := fun res => Placed s res.tcb e) fun _ _ _ _ => .stays (.refl s)
  case bindReq =>
    rintro _ _ rfl
    cases alone
  case connRes =>
    rintro rfl
    cases alone
  case accept =>
    rintro _ _ _ rfl
    cases alone
  case connReq =>
    rintro ip port iss rfl state
    exact .opens (sendLast_tcb ⟨state, rfl, rfl, rfl, rfl⟩ ⟨state, rfl, rfl, rfl, rfl⟩)
  case listenReq =>
    rintro rfl state
    exact .listens ⟨state, rfl, rfl, rfl, rfl⟩
  case dataReq =>
    intro payload _ _ _ _
    apply Placed.stays
    apply (stays_bears env s).tcpTrySendPending
    rw [appendBuf_eq]
    exact { Stays.refl _ with }
  case ordrelReq =>
    intro state _ sending either
    have synced : s.state.synced = true := by cases state : s.state <;> simp_all [TcpState.sending, TcpState.synced]
    refine .stays ((setState_stays (.synced synced ?_)).trans (sendLast_stays rfl))
    rcases either with rfl | rfl <;> rfl
  case disconReq => exact fun _ => .stays handleDisconReq_stays
  case drain => exact fun _ _ => .stays (sendLast_plain (countSegment_ack s) (.refl s))
  case tick =>
    rintro now rfl
    exact retransmit_placed now

end Passes

end Kappara.Tcp
