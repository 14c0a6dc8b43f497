import Kappara.Tcp.Frames

/-! Whether the send window is used.

After a pass the send loop has run if anything it depends on has changed, or it
is still pending; the paths that change a window without entering the loop are
the exceptions, and they are named in the condition on a run. -/

set_option autoImplicit false

namespace Kappara.Tcp

open BlockChain Net

-- No byte past snd_nxt, or no room for one under the two windows.
def Fills (s : Tcb) (cwnd wnd : Word) : Prop :=
  s.sndBuf = [] ∨ s.bufLen ≤ s.sndNxt - s.sndBufSeq ∨ minWord cwnd wnd ≤ s.inflight

instance (s : Tcb) (cwnd wnd : Word) : Decidable (Fills s cwnd wnd) := inferInstanceAs (Decidable (_ ∨ _ ∨ _))

def Filled (s : Tcb) : Prop := Fills s s.cwnd s.sndWnd

instance (s : Tcb) : Decidable (Filled s) := inferInstanceAs (Decidable (Fills _ _ _))

-- In the sending states the window is filled or the loop is pending; before that nothing is queued.
structure Prompt (s : Tcb) : Prop where
  filled : s.state.mode = .sending → Filled s ∨ s.inSend = true
  opening : s.state.mode = .synSent ∨ s.state.mode = .synReceived → s.sndBuf = []

-- What the send loop reads did not change; the connection goes on or has ended.
structure Steady (s s' : Tcb) : Prop where
  una : s'.sndUna = s.sndUna
  nxt : s'.sndNxt = s.sndNxt
  buf : s'.sndBuf = s.sndBuf
  bufSeq : s'.sndBufSeq = s.sndBufSeq
  cwnd : s'.cwnd = s.cwnd
  window : s'.sndWnd = s.sndWnd
  inSend : s'.inSend = s.inSend
  mode : s'.state.mode = s.state.mode ∨ s'.state.mode = .dead

section Steady

variable {s s' s'' : Tcb}

theorem Steady.refl (s : Tcb) : Steady s s := ⟨rfl, rfl, rfl, rfl, rfl, rfl, rfl, .inl rfl⟩

theorem Steady.trans (first : Steady s s') (second : Steady s' s'') : Steady s s'' where
  una := second.una.trans first.una
  nxt := second.nxt.trans first.nxt
  buf := second.buf.trans first.buf
  bufSeq := second.bufSeq.trans first.bufSeq
  cwnd := second.cwnd.trans first.cwnd
  window := second.window.trans first.window
  inSend := second.inSend.trans first.inSend
  mode := by
    rcases second.mode with same | dead
    · rw [same]
      exact first.mode
    · exact .inr dead

theorem Steady.of_held (held : Held s s') (windows : s'.cwnd = s.cwnd ∧ s'.sndWnd = s.sndWnd) : Steady s s' :=
  { held with cwnd := windows.1, window := windows.2 }

theorem Filled.steady (filled : Filled s) (steady : Steady s s') : Filled s' := by
  unfold Filled Fills Tcb.bufLen Tcb.inflight at *
  rwa [steady.buf, steady.nxt, steady.bufSeq, steady.cwnd, steady.window, steady.una]

theorem Prompt.dead (mode : s.state.mode = .dead) : Prompt s :=
  ⟨fun sending => by simp [mode] at sending, fun syn => by simp [mode] at syn⟩

theorem Prompt.steady (prompt : Prompt s) (steady : Steady s s') : Prompt s' := by
  rcases steady.mode with same | dead
  · refine ⟨?_, ?_⟩
    · rw [same, steady.inSend]
      exact fun sending => (prompt.filled sending).imp_left fun filled => filled.steady steady
    · rw [same, steady.buf]
      exact prompt.opening
  · exact .dead dead

theorem minWord_le {a b c : Word} (le : a ≤ c ∨ b ≤ c) : minWord a b ≤ c := by
  unfold minWord
  split
  next less => exact le.elim id fun below => BitVec.le_trans (BitVec.le_of_lt less) below
  next more => exact le.elim (fun below => BitVec.le_trans (BitVec.not_lt.mp more) below) id

theorem windowRoom_zero {window inflight : Word} (none : windowRoom window inflight = 0#32) : window ≤ inflight := by
  unfold windowRoom at none
  split at none
  next less =>
    have same : window = inflight := by grind
    rw [same] at less
    exact absurd less (BitVec.lt_irrefl _)
  next more => exact BitVec.not_lt.mp more

/-- The loop ends on its own only when the window is filled. -/
theorem trySendChunk_none (ended : trySendChunk s = none) : Filled s := by
  unfold trySendChunk at ended
  split at ended
  next empty => exact .inl empty
  · simp only at ended
    split at ended
    next sent => exact .inr (.inl sent)
    · split at ended
      next room =>
        refine .inr (.inr (minWord_le ?_))
        unfold minWord at room
        split at room
        · exact .inl (windowRoom_zero room)
        · exact .inr (windowRoom_zero room)
      · cases ended

end Steady

section Delivery

variable (net : Interfaces) (env : Env) (s : Tcb)

theorem ackState_steady : Steady s (ackState env s) :=
  .of_held (ackState_idle env s).toHeld ((ackState_kept env s).imp_right And.left)

theorem steady_keeps : Keeps env (Steady s) where
  rcv _ steady := steady.trans { Steady.refl _ with }
  fin steady := steady.trans (.of_held (finState_idle env _).toHeld ((finState_kept env _).imp_right And.left))

theorem afterAck_steady (seg : Segment) : Steady s (afterAck net env s seg).tcb :=
  (steady_keeps env s).afterAck seg (ackState_steady env s)

theorem continueAfter_steady (after : After) : Steady s (continueAfter net env s after).tcb :=
  (steady_keeps env s).continueAfter after (.refl s) (ackState_steady env s)

end Delivery

section Loop

variable {net : Interfaces} {env : Env} {s : Tcb}

theorem ipCarries_mono {dst : Ip} {short long : BitVec 32} (le : short ≤ long)
    (carried : ipCarries net dst long = true) : ipCarries net dst short = true := by
  unfold ipCarries at *
  split
  next none => simp [none] at carried
  next nif route =>
    rw [route] at carried
    exact decide_eq_true (BitVec.le_trans le (of_decide_eq_true carried))

-- The route to the peer exists and takes full segments, and nothing on the way is short of memory.
def takes (net : Interfaces) (env : Env) (s : Tcb) : Bool :=
  ipRouteSrc net s.remoteIp != 0#32 && env.alloc .fresh && env.taken .fresh &&
    ipCarries net s.remoteIp (BitVec.ofNat 32 (tcpHdrLenMin + s.mss.toNat))

theorem takes_emits (seq : Word) {data : List Byte} (ok : takes net env s = true) (short : data.length ≤ s.mss.toNat) :
    ∃ seg, tcpEmitSegment net env .fresh s seq flagAckPsh data = some seg := by
  simp only [takes, Bool.and_eq_true, bne_iff_ne] at ok
  obtain ⟨⟨⟨route, alloc⟩, taken⟩, carried⟩ := ok
  have fits : (buildSegment net env s seq flagAckPsh data).wireLen ≤ BitVec.ofNat 32 (tcpHdrLenMin + s.mss.toNat) := by
    have length : (buildSegment net env s seq flagAckPsh data).wireLen =
        BitVec.ofNat 32 (tcpHdrLenMin + 0 + data.length) := rfl
    rw [length, BitVec.le_def, BitVec.toNat_ofNat, BitVec.toNat_ofNat]
    all_goals
      rw [tcpHdrLenMin]
      omega
  have sent : (ipCarries net (buildSegment net env s seq flagAckPsh data).dstIp
      (buildSegment net env s seq flagAckPsh data).wireLen && env.taken .fresh) = true := by
    rw [taken, Bool.and_true]
    exact ipCarries_mono fits carried
  rw [tcpEmitSegment, if_neg route, if_pos alloc, ipSend, if_pos sent]
  exact ⟨_, rfl⟩

theorem Prompt.final (mode : s.state.mode = .ended ∨ s.state.mode = .dead) : Prompt s := by
  rcases mode with mode | mode
  · exact ⟨fun sending => by simp [mode] at sending, fun syn => by simp [mode] at syn⟩
  · exact .dead mode

theorem Prompt.empty (empty : s.sndBuf = []) : Prompt s := ⟨fun _ => .inl (.inl empty), fun _ => empty⟩

/-- The loop leaves the window filled, or waits for ip_send with the guard set. -/
theorem trySendLoop_prompt (after : After) (busy : s.inSend = true)
    (mode : s.state.mode = .sending ∨ s.state.mode = .dead) (ok : s.state.mode = .sending → takes net env s = true) :
    Prompt (trySendLoop net env s after).tcb := by
  have waits : Prompt s := by
    refine ⟨fun _ => .inr busy, fun syn => ?_⟩
    rcases mode with mode | mode <;> simp [mode] at syn
  rw [trySendLoop]
  split
  next ended =>
    have filled : Prompt (s.setInSend false) :=
      ⟨fun _ => .inl (trySendChunk_none ended), waits.opening⟩
    exact filled.steady (continueAfter_steady net env _ after)
  next data chunk =>
    rcases mode with sending | dead
    · obtain ⟨seg, emitted⟩ := takes_emits s.sndNxt (ok sending) (trySendChunk_spec chunk).short
      rw [emitted]
      exact waits
    · have gone : Prompt (s.setInSend false) := .dead dead
      exact send_tcb waits (gone.steady (continueAfter_steady net env _ after))

theorem tcpTrySendPending_prompt (after : After)
    (opening : s.state.mode = .synSent ∨ s.state.mode = .synReceived → s.sndBuf = [])
    (ok : s.state.mode = .sending → s.inSend = false → takes net env s = true) :
    Prompt (tcpTrySendPending net env s after).tcb := by
  rw [tcpTrySendPending]
  split
  next skipped =>
    have prompt : Prompt s := by
      refine ⟨fun sending => ?_, opening⟩
      rcases Bool.or_eq_true_iff.mp skipped with busy | closed
      · exact .inr busy
      · cases state : s.state <;> simp [state, TcpState.sending, TcpState.mode] at closed sending
    exact prompt.steady (continueAfter_steady net env _ after)
  next entered =>
    rw [Bool.or_eq_true, not_or, Bool.not_eq_true, Bool.not_eq_true, Bool.not_eq_false'] at entered
    exact trySendLoop_prompt after rfl (.inl (mode_sending entered.2)) fun sending => ok sending entered.1

end Loop

section Runs

variable {net : Interfaces} {env : Env} {s : Tcb} {seg : Segment} {c : Conf} {label : Label} {res : Res}
  {below : List Frame}

section

variable (s : Tcb) (seg : Segment)

-- The segment comes from the peer and either resets the connection or reaches the send loop.
def reachesLoop : Bool :=
  s.fromPeer seg && (seg.flags.rst || (seg.flags.ack &&
    (advances s seg || (isDupAck s seg && decide (3#8 < s.dupAckCount + 1)))))

-- The third duplicate acknowledgement in a row.
def thirdDupAck : Bool :=
  s.fromPeer seg && seg.flags.ack && !advances s seg && isDupAck s seg && decide (s.dupAckCount + 1 = 3#8)

-- The congestion window the segment leaves where it does not reach the loop.
def recoveryCwnd : Word :=
  if thirdDupAck s seg then halfFlight s + 3 * s.mssWord else s.cwnd

-- The timer fires for data that was not retransmitted yet.
def firstTimeout (now : Word) : Prop :=
  s.rtoExpires ≠ 0#32 ∧ 0 ≤ (now - s.rtoExpires).toInt ∧ s.retransmitCount = 0#8

instance (s : Tcb) (now : Word) : Decidable (firstTimeout s now) := inferInstanceAs (Decidable (_ ∧ _ ∧ _))

-- What a run has to avoid: a segment, or a timeout, that opens a window over unsent bytes without a
-- call of the send loop; a route that refuses segments; a connection started over a stale buffer.
def attentive (net : Interfaces) (c : Conf) (env : Env) : Label → Prop
  | .arrive seg => c.tcb.state.sending = true → c.tcb.inSend = false → seg.dstPort = c.tcb.localPort →
      takes net env c.tcb = true ∧
        (reachesLoop c.tcb seg = false → Fills c.tcb (recoveryCwnd c.tcb seg) (announced c.tcb seg))
  | .resume => c.tcb.state.sending = true → takes net env c.tcb = true
  | .event (.dataReq _) => c.tcb.state.sending = true → takes net env c.tcb = true
  | .event (.tick now) => c.tcb.state.sending = true → firstTimeout c.tcb now → Fills c.tcb c.tcb.mssWord c.tcb.sndWnd
  | .event (.connReq _ _ _) => c.tcb.state = .bound → c.tcb.sndBuf = []
  | .event (.accept _ _ _) => c.tcb.state = .closed → c.tcb.sndBuf = []
  | _ => True

instance attentive.decidable (net : Interfaces) (c : Conf) (env : Env) :
    (label : Label) → Decidable (attentive net c env label)
  | .arrive _ => inferInstanceAs (Decidable (_ → _ → _ → _ ∧ (_ → _)))
  | .resume => inferInstanceAs (Decidable (_ → _))
  | .event e =>
    match e with
    | .dataReq _ => inferInstanceAs (Decidable (_ → _))
    | .tick _ => inferInstanceAs (Decidable (_ → _ → _))
    | .connReq _ _ _ => inferInstanceAs (Decidable (_ → _))
    | .accept _ _ _ => inferInstanceAs (Decidable (_ → _))
    | .bindReq _ _ => isTrue trivial
    | .listenReq => isTrue trivial
    | .connRes => isTrue trivial
    | .ordrelReq => isTrue trivial
    | .disconReq => isTrue trivial
    | .drain => isTrue trivial

-- The block after a segment that does not reach the loop.
def rewindowed : Tcb :=
  if thirdDupAck s seg then enterRecovery (trackWindow s seg) else trackWindow s seg

end

theorem rewindowed_filled {s : Tcb} {seg : Segment} (fills : Fills s (recoveryCwnd s seg) (announced s seg)) :
    Filled (rewindowed s seg) := by
  unfold recoveryCwnd at fills
  unfold rewindowed
  split
  next third =>
    rw [if_pos third] at fills
    exact fills
  next other =>
    rw [if_neg other] at fills
    exact fills

theorem sending_of_mode {state : TcpState} (mode : state.mode = .sending) : state.sending = true := by
  cases state <;> simp_all [TcpState.sending, TcpState.mode]

theorem takes_same {s' : Tcb} (ip : s'.remoteIp = s.remoteIp) (mss : s'.mss = s.mss) :
    takes net env s' = takes net env s := by
  unfold takes
  rw [ip, mss]

theorem rewindowed_prompt {s' : Tcb} (mode : s.state.mode = .sending)
    (ok : s.inSend = false → Filled (rewindowed s seg)) (steady : Steady (rewindowed s seg) s') : Prompt s' := by
  have state : (rewindowed s seg).state = s.state := by
    unfold rewindowed
    split <;> rfl
  have guard : (rewindowed s seg).inSend = s.inSend := by
    unfold rewindowed
    split <;> rfl
  refine Prompt.steady ⟨fun _ => ?_, fun syn => ?_⟩ steady
  · rw [guard]
    cases busy : s.inSend with
    | false => exact .inl (ok busy)
    | true => exact .inr rfl
  · rw [state, mode] at syn
    simp at syn

theorem inputDupAck_prompt (mode : s.state.mode = .sending) (peer : s.fromPeer seg = true)
    (notReset : seg.flags.rst = false)
    (flag : seg.flags.ack = true) (old : advances s seg = false) (dup : isDupAck s seg = true)
    (ok : s.inSend = false → takes net env s = true ∧ (reachesLoop s seg = false → Filled (rewindowed s seg))) :
    Prompt (inputDupAck net env (trackWindow s seg) seg).tcb := by
  have loop : reachesLoop s seg = decide (3#8 < s.dupAckCount + 1) := by
    simp [reachesLoop, peer, notReset, flag, old, dup]
  have third : thirdDupAck s seg = decide (s.dupAckCount + 1 = 3#8) := by
    simp [thirdDupAck, peer, flag, old, dup]
  have count : (countDupAck (trackWindow s seg)).dupAckCount = s.dupAckCount + 1 := rfl
  rw [inputDupAck, count]
  split
  next three =>
    have windows : rewindowed s seg = enterRecovery (trackWindow s seg) := by
      rw [rewindowed, if_pos (by rw [third]; exact decide_eq_true three)]
    have steady : Steady (rewindowed s seg) (enterRecovery (countDupAck (trackWindow s seg))) := by
      rw [windows]
      exact { Steady.refl _ with }
    have prompt := rewindowed_prompt mode (fun idle => (ok idle).2 (by rw [loop, three]; rfl)) steady
    exact send_tcb prompt (prompt.steady (afterAck_steady net env _ seg))
  next notThree =>
    have windows : rewindowed s seg = trackWindow s seg := by
      rw [rewindowed, if_neg (by rw [third]; simpa using notThree)]
    split
    · apply tcpTrySendPending_prompt
      · exact fun syn => by simp [inflateCwnd, countDupAck, trackWindow, mode] at syn
      · intro _ idle
        exact (takes_same rfl rfl).trans (ok idle).1
    next few =>
      have steady : Steady (rewindowed s seg) (countDupAck (trackWindow s seg)) := by
        rw [windows]
        exact { Steady.refl _ with }
      have prompt := rewindowed_prompt mode (fun idle => (ok idle).2 (by rw [loop]; exact decide_eq_false few)) steady
      exact prompt.steady (afterAck_steady net env _ seg)

theorem inputConnected_prompt (mode : s.state.mode = .sending) (ok : s.inSend = false → takes net env s = true ∧
    (reachesLoop s seg = false → Filled (rewindowed s seg))) : Prompt (inputConnected net env
    (trackWindow s seg) seg).tcb := by
  -- A segment that passes by the loop and is no third duplicate only brings its window.
  have passes (loop : reachesLoop s seg = false) (third : thirdDupAck s seg = false) : Prompt (trackWindow s seg) := by
    refine rewindowed_prompt mode (fun idle => (ok idle).2 loop) ?_
    rw [rewindowed, if_neg (by simp [third])]
    exact .refl _
  rw [inputConnected]
  split
  next other =>
    have foreign : s.fromPeer seg = false := by simpa using show (!s.fromPeer seg) = true from other
    exact passes (by simp [reachesLoop, foreign]) (by simp [thirdDupAck, foreign])
  next peer =>
    have peer : s.fromPeer seg = true := by simpa using show ¬(!s.fromPeer seg) = true from peer
    split
    · exact .dead rfl
    next notReset =>
      rw [Bool.not_eq_true] at notReset
      split
      next flag =>
        split
        next newer =>
          have acked := ackAdvance_acked env (trackWindow s seg) seg.ack
          apply tcpTrySendPending_prompt
          · rw [acked.state]
            exact fun syn => by simp [trackWindow, mode] at syn
          · intro _ idle
            rw [acked.inSend] at idle
            exact (takes_same acked.tuple.2.1 acked.mss).trans (ok idle).1
        next old =>
          have old : advances s seg = false := Bool.eq_false_iff.mpr old
          split
          next dup => exact inputDupAck_prompt mode peer notReset flag old dup ok
          next fresh =>
            have fresh : isDupAck s seg = false := Bool.eq_false_iff.mpr fresh
            have prompt := passes (by simp [reachesLoop, notReset, old, fresh]) (by simp [thirdDupAck, fresh])
            exact prompt.steady (afterAck_steady net env _ seg)
      next none =>
        have prompt := passes (by simp [reachesLoop, notReset, none]) (by simp [thirdDupAck, none])
        exact prompt.steady ((steady_keeps env _).inputData seg (.refl _))

theorem arrive_prompt (prompt : Prompt s) (ok : s.state.sending = true → s.inSend = false → seg.dstPort = s.localPort →
    takes net env s = true ∧ (reachesLoop s seg = false → Filled (rewindowed s seg))) : Prompt
      (arrive net env s seg).tcb := by
  have arrived := arrive_spec net env s seg
  cases mode : s.state.mode with
  | dead => exact .final (arrived.kept.final (.inr mode))
  | ended => exact .final (arrived.kept.final (.inl mode))
  | synSent => exact .empty (arrived.empty (prompt.opening (.inl mode)))
  | synReceived => exact .empty (arrived.empty (prompt.opening (.inr mode)))
  | sending =>
    rw [arrive]
    split
    · exact prompt
    next filtered =>
      rw [not_or, not_not] at filtered
      have connected := inputConnected_prompt mode fun idle => ok (sending_of_mode mode) idle filtered.1
      rw [tcpInput, inputState]
      cases state : s.state <;> simp [state, TcpState.mode] at mode
      · simpa [trackWindow, state] using connected
      · simpa [trackWindow, state] using connected

theorem sendLast_empty {flags : Flags} (one : flags.syn = !flags.fin) (empty : s.sndBuf = []) :
    Prompt (sendLast net env s flags).tcb := by
  rcases (control_spec net env s flags).tcb with same | counted
  · rw [same]
    exact .empty empty
  · rw [counted]
    exact .empty ((countSegment_counted env s flags one).buf.trans empty)

theorem retransmit_prompt (prompt : Prompt s) (now : Word)
    (ok : s.state.sending = true → firstTimeout s now → Filled (tcpCwndOnRto s)) :
    Prompt (retransmit net env s now).tcb := by
  apply retransmit_elim (P := fun res => Prompt res.tcb) prompt (fun _ => .dead rfl) fun _ _ => .dead rfl
  intro armed _
  have backoff : Prompt (rtxBackoff s) := by
    by_cases first : s.retransmitCount = 0#8
    · refine ⟨fun sending => .inl ?_, ?_⟩
      · have mode : s.state.mode = .sending := by simpa [rtxBackoff, first, tcpCwndOnRto] using sending
        have filled := ok (sending_of_mode mode) ⟨armed.1, armed.2, first⟩
        refine filled.steady ?_
        rw [rtxBackoff, if_pos first]
        exact { Steady.refl _ with }
      · rw [rtxBackoff, if_pos first]
        exact prompt.opening
    · refine prompt.steady ?_
      rw [rtxBackoff, if_neg first]
      exact { Steady.refl _ with }
  exact rtxEmit_tcb backoff (backoff.steady { Steady.refl _ with })

theorem handleDisconReq_prompt (prompt : Prompt s) : Prompt (handleDisconReq net env s).tcb := by
  apply handleDisconReq_elim (P := fun res => Prompt res.tcb) prompt
  · intro state
    have dead : s.state.mode = .dead := by rw [state]; rfl
    exact .dead ((rejectLoop_deliver net env _ s dead).held.mode.elim (·.trans dead) id)
  · exact fun _ => plain_tcb .control (fun s' => .ret s' []) (countSegment_rst _) (.dead rfl) (.dead rfl)

theorem handle_prompt (e : Event) (prompt : Prompt s) (ok : attentive net ⟨s, []⟩ env (.event e)) :
    Prompt (handle net env s e).tcb := by
  apply handle_elim (P := fun res => Prompt res.tcb) fun _ _ _ _ => prompt
  case bindReq =>
    rintro _ _ _ _ _ _ _ _ (rfl | rfl) _
    all_goals exact .dead rfl
  case connReq =>
    rintro ip port iss rfl bound
    exact sendLast_empty rfl (ok bound)
  case listenReq => exact fun _ _ => .dead rfl
  case connRes => exact fun _ => prompt.steady { Steady.refl _ with }
  case accept =>
    rintro lport entry iss rfl closed
    exact sendLast_empty rfl (ok closed)
  case dataReq =>
    rintro payload rfl open_ _ _
    have mode : s.state.mode = .sending := by rw [open_]; rfl
    apply tcpTrySendPending_prompt
    · rw [appendBuf_eq]
      exact fun syn => by simp [mode] at syn
    · intro _ _
      rw [appendBuf_eq]
      exact (takes_same rfl rfl).trans (ok (sending_of_mode mode))
  case ordrelReq =>
    intro state _ _ either
    have ended : state.mode = .ended := by rcases either with rfl | rfl <;> rfl
    rcases (control_spec net env (s.setState state) flagAckFin).tcb with eq | eq <;> rw [eq] <;>
      exact .final (.inl ended)
  case disconReq => exact fun _ => handleDisconReq_prompt prompt
  case drain => exact fun _ _ => prompt.steady (sendLast_plain (countSegment_ack s) (.refl s))
  case tick =>
    rintro now rfl
    exact retransmit_prompt prompt now ok

theorem resume_prompt {frame : Frame} (shape : Shape ⟨s, frame :: below⟩) (prompt : Prompt s)
    (ok : s.state.sending = true → takes net env s = true) : Prompt (resume net env s frame).tcb := by
  cases frame with
  | ret | connCon ip port | finAck => exact prompt
  | fastRetransmit seg => exact prompt.steady (afterAck_steady net env s seg)
  | dataAck seg => exact prompt.steady ((steady_keeps env s).inputFin seg (.refl s))
  | rtx saved now => exact prompt.steady { Steady.refl _ with }
  | reject =>
    have dead : s.state.mode = .dead := shape.reject List.mem_cons_self
    have held := (rejectLoop_deliver net env (popPending s).2.pendingCount (popPending s).2 dead).held
    exact .dead (held.mode.elim (fun same => same.trans dead) id)
  | trySend n after =>
    obtain ⟨busy, -⟩ := shape.busy
    obtain ⟨_, _, _, _, _, eq⟩ := trySendCount_eq env s n
    have mode := shape.mode busy
    rw [resume, eq]
    apply trySendLoop_prompt
    · exact busy
    · exact mode
    · intro sending
      exact (takes_same rfl rfl).trans (ok (sending_of_mode sending))

theorem Reach.prompt (reached : Reach net (attentive net) c) : Prompt c.tcb := by
  induction reached with
  | start => exact .dead rfl
  | @next c env label res below reached ok ran ih =>
    have shape := reached.shape
    obtain ⟨s, stack⟩ := c
    cases label with
    | event e =>
      cases stack with
      | nil =>
        cases ran
        exact handle_prompt e ih ok
      | cons frame rest => cases ran
    | arrive seg =>
      cases ran
      refine arrive_prompt ih fun sending idle port => ?_
      exact (ok sending idle port).imp_right fun fills missed => rewindowed_filled (fills missed)
    | resume =>
      cases stack with
      | nil => cases ran
      | cons frame rest =>
        cases ran
        exact resume_prompt shape ih ok

/-- In an attentive run, whenever nothing is pending in ESTABLISHED or CLOSE_WAIT, no byte is left unsent
behind an open window. -/
theorem window_filled_when_quiet (net : Interfaces) (c : Conf) (reached : Reach net (attentive net) c)
    (quiet : c.stack = []) (sending : c.tcb.state.sending = true) : Filled c.tcb := by
  have idle : c.tcb.inSend = false := by
    obtain ⟨s, stack⟩ := c
    cases quiet
    exact reached.shape.idle
  refine (reached.prompt.filled (mode_sending sending)).resolve_right fun busy => ?_
  rw [idle] at busy
  cases busy

-- A passive open by a peer with the given window, and two bytes to send.
def openNarrow (window : BitVec 16) : List (Env × Label) :=
  [(.calm 1#32, .event (.accept 7#16 ⟨0x0a000002#32, 80#16, 1460#16, 99#32, 0, false⟩ 0#32)),
   (.calm 1#32, .resume),
   (.calm 2#32, .arrive { fromLan flagAck 100#32 1#32 [] with window := window }),
   (.calm 3#32, .event (.dataReq ⟨[[1#8, 2#8]], oneTwo_small⟩))]

def narrow : List (Env × Label) := openNarrow 1#16 ++ [(.calm 3#32, .resume)]

theorem window_filled_when_quiet_narrow :
    (run lan fresh narrow).tcb.inflight = 1#32 ∧ (run lan fresh narrow).tcb.bufLen = 2#32 ∧
    Filled (run lan fresh narrow).tcb :=
  ⟨by decide +kernel, by decide +kernel,
    window_filled_when_quiet lan _ (.run narrow .start (by decide +kernel)) (by decide +kernel) (by decide +kernel)⟩

/-- A window update does not reach the send loop: both bytes stay unsent under an open window. -/
theorem window_update_stalls :
    ∃ c, Reach lan (fun c env _ => c.tcb.state.sending = true → takes lan env c.tcb = true) c ∧ c.stack = [] ∧
      c.tcb.state.sending = true ∧ ¬ Filled c.tcb := by
  let steps := openNarrow 0#16 ++ [(Env.calm 4#32, Label.arrive (fromLan flagAck 100#32 1#32 []))]
  exact ⟨run lan fresh steps, .run steps .start (by decide +kernel), by decide +kernel, by decide +kernel,
    by decide +kernel⟩

end Runs

end Kappara.Tcp
