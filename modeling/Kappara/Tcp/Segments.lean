import Kappara.Tcp.History

/-! What a segment may carry, and what becomes of what it carried.

The size of data segments is fixed once, when the handshake tells the peer's MSS,
by the registered interfaces and with a floor; IP routes and measures the datagram
by the interfaces linked under it. At the other end the bytes of a segment count as
received before the message that hands them up has been allocated. -/

set_option autoImplicit false

namespace Kappara.Tcp

open BlockChain Net
open BitVec (lt_def toNat_add toNat_ofNat toNat_sub)

section Size

variable {net : Interfaces} {env : Env} {s : Tcb} {seg : Segment} {c : Conf} {label : Label} {res : Res}
  {below : List Frame}

/-- The MSS the peer offers with the segment or backlog entry that settles the size of segments. -/
def Label.offers (s : Tcb) : Label → Option (BitVec 16)
  | .event (.accept _ entry _) => if s.state = .closed then some entry.peerMss else none
  | .arrive seg =>
    if seg.dstPort = s.localPort ∧ s.state = .synSent ∧ seg.flags.syn ∧ seg.flags.ack ∧ seg.ack = s.sndNxt ∧
      s.fromPeer seg then
      some (tcpParseSynOptions seg.options).mss
    else none
  | _ => none

theorem mss_bears (mss : BitVec 16) : Bears env (fun s => s.mss = mss) where
  rcv _ same := same
  fin same := (finState_kept env _).2.2.trans same
  covered same := (ackState_kept env _).2.2.trans same
  guard _ same := same
  advance ack _ same := (ackAdvance_acked env _ ack).mss.trans same
  congest _ _ _ same := same

theorem sendLast_mss {flags : Flags} : (sendLast net env s flags).tcb.mss = s.mss := by
  apply sendLast_tcb (P := fun s' => s'.mss = s.mss) rfl
  obtain ⟨fin, syn, rst, psh, ack, urg⟩ := flags
  cases fin <;> cases syn <;> rfl

theorem rejectLoop_mss (fuel : Nat) : (rejectLoop net env fuel s).tcb.mss = s.mss :=
  rejectLoop_tcb (P := fun s' => s'.mss = s.mss) fuel (fun _ _ _ same => same) (fun _ same => same) rfl

theorem arrive_mss (none : (Label.arrive seg).offers s = none) : (arrive net env s seg).tcb.mss = s.mss := by
  apply arrive_elim (P := fun res => res.tcb.mss = s.mss)
  case dropped => rfl
  case listen =>
    intro _
    rw [inputListen]
    split <;> rfl
  case ignored => exact fun _ => rfl
  case synSent =>
    intro port state
    rw [inputSynSent, if_neg]
    · rfl
    · intro accepted
      rw [Label.offers, if_pos ⟨port, state, accepted⟩] at none
      cases none
  case synReceived =>
    intro _ _
    rw [inputSynReceived]
    split
    · obtain ⟨_, _, _, _, eq⟩ := sampleRtt_eq env (trackWindow s seg)
      rw [establishBlock, eq]
      rfl
    · rfl
  case connected => exact fun _ connected => (mss_bears s.mss).inputConnected connected rfl fun _ _ => rfl
  case timeWait => exact fun _ _ => inputTimeWait_tcb (P := fun s' => s'.mss = s.mss) seg rfl

theorem retransmit_mss (now : Word) : (retransmit net env s now).tcb.mss = s.mss := by
  have backoff : (rtxBackoff s).mss = s.mss := by
    unfold rtxBackoff
    split <;> rfl
  apply retransmit_elim (P := fun res => res.tcb.mss = s.mss) rfl (fun _ => rfl) fun _ _ => rfl
  exact fun _ _ => rtxEmit_tcb (P := fun s' => s'.mss = s.mss) backoff backoff

theorem handle_mss (e : Event) (none : (Label.event e).offers s = none) : (handle net env s e).tcb.mss = s.mss := by
  apply handle_elim (P := fun res => res.tcb.mss = s.mss) fun _ _ _ _ => rfl
  case bindReq => exact fun _ _ _ _ _ _ _ _ _ _ => rfl
  case listenReq => exact fun _ _ => rfl
  case connRes => exact fun _ => rfl
  case connReq => exact fun _ _ _ _ _ => sendLast_mss
  case ordrelReq => exact fun _ _ _ _ => sendLast_mss
  case drain => exact fun _ _ => sendLast_mss
  case accept =>
    rintro lport entry iss rfl closed
    rw [Label.offers, if_pos closed] at none
    cases none
  case dataReq =>
    intro payload _ _ _ _
    apply (mss_bears s.mss).tcpTrySendPending
    rw [appendBuf_eq]
  case disconReq =>
    intro _
    exact handleDisconReq_elim (P := fun res => res.tcb.mss = s.mss) rfl (fun _ => rejectLoop_mss _) fun _ =>
      sendLast_mss
  case tick => exact fun now _ => retransmit_mss now

theorem resume_mss (frame : Frame) : (resume net env s frame).tcb.mss = s.mss := by
  cases frame with
  | fastRetransmit seg => exact (mss_bears s.mss).afterAck seg rfl
  | dataAck seg => exact (mss_bears s.mss).inputFin seg rfl
  | reject => exact rejectLoop_mss _
  | trySend n after =>
    apply (mss_bears s.mss).trySendLoop
    obtain ⟨_, _, _, _, _, eq⟩ := trySendCount_eq env s n
    rw [eq]
  | ret | connCon | finAck | rtx => rfl

theorem pass_mss (ran : pass net env c label = some (res, below)) (none : label.offers c.tcb = none) :
    res.tcb.mss = c.tcb.mss := by
  obtain ⟨s, stack⟩ := c
  cases label with
  | event e =>
    cases stack with
    | nil =>
      cases ran
      exact handle_mss e none
    | cons => cases ran
  | arrive seg =>
    cases ran
    exact arrive_mss none
  | resume =>
    cases stack with
    | nil => cases ran
    | cons frame =>
      cases ran
      exact resume_mss frame

theorem run_mss (steps : List (Env × Label)) (later : RunOk net (fun c _ label => label.offers c.tcb = none) c steps) :
    (run net c steps).tcb.mss = c.tcb.mss := by
  induction steps generalizing c with
  | nil => rfl
  | cons step rest ih =>
    refine (ih later.2).trans ?_
    rw [next]
    split
    next ran => exact pass_mss ran later.1
    · rfl

/-! What a pass emits was cut to the size the block has then. -/

variable {cur : Option Segment} {frame : Frame}

theorem Emits.short (emits : Emits net env cur s (some (seg, frame))) : seg.payload.length ≤ s.mss.toNat := by
  cases emits with
  | bare | repeated => exact Nat.zero_le _
  | again => exact List.length_take_le _ _
  | reset _ empty =>
    rw [empty]
    exact Nat.zero_le _

theorem Pass.short (pass : Pass net env cur s res) (sent : res.sent = some (seg, frame)) :
    seg.payload.length ≤ res.tcb.mss.toNat := by
  cases pass with
  | fresh _ _ _ chunk =>
    cases sent
    exact (trySendChunk_spec chunk).short
  | deliver delivered =>
    cases delivered with
    | run _ _ emits =>
      cases sent
      exact emits.short
    | fin _ _ _ _ _ ack =>
      obtain ⟨-, rfl⟩ := ack _ _ sent
      exact Nat.zero_le _

theorem Step.short (step : Step net env c label res below) (sent : res.sent = some (seg, frame)) :
    seg.payload.length ≤ res.tcb.mss.toNat := by
  have control {t : Tcb} {flags : Flags} (control : Control net env t flags res) :
      seg.payload.length ≤ res.tcb.mss.toNat := by
    cases control with
    | skipped => cases sent
    | counted either =>
      rcases either with rfl | rfl
      · cases sent
      · cases sent
        exact Nat.zero_le _
  cases step with
  | event _ handled =>
    cases handled with
    | deliver _ _ delivered => exact (Pass.deliver delivered).short sent
    | connReq _ syn | accept _ syn => exact control syn
    | dataReq _ _ _ pass => exact pass.short sent
    | ordrelReq _ _ fin => exact control fin
  | arrive arrived =>
    cases arrived with
    | quiet => cases sent
    | taken _ _ _ pass => exact pass.short sent
  | resume _ resumed =>
    cases resumed with
    | deliver _ delivered => exact (Pass.deliver delivered).short sent
    | finAck => cases sent
    | trySend pass => exact pass.short sent

/-- The size that tcp_negotiate_mss settles on: the smaller of the two offers, but no less than 536. -/
theorem tcpNegotiateMss_toNat (peer : BitVec 16) : (tcpNegotiateMss net s peer).mss.toNat =
    max 536 (if peer = 0#16 then (tcpLocalMss net s.remoteIp).toNat else min peer.toNat
      (tcpLocalMss net s.remoteIp).toNat) := by
  generalize size : tcpLocalMss net s.remoteIp = mss
  simp only [tcpNegotiateMss, size, lt_def]
  have floor : tcpMssDefault.toNat = 536 := rfl
  by_cases absent : peer = 0#16
  · simp only [absent, ne_eq, not_true_eq_false, false_and, if_false, if_true]
    split <;> omega
  · by_cases less : peer.toNat < mss.toNat
    · simp only [absent, less, ne_eq, not_false_eq_true, and_self, if_true, if_false]
      split <;> omega
    · simp only [less, and_false, if_false]
      split <;> omega

/-- The pass that hears the peer's offer settles the size for its destination. -/
theorem offers_mss {peer : BitVec 16} (ran : pass net env c label = some (res, below))
    (offered : label.offers c.tcb = some peer) :
    ∃ s : Tcb, s.remoteIp = res.tcb.remoteIp ∧ res.tcb.mss = (tcpNegotiateMss net s peer).mss := by
  obtain ⟨s, stack⟩ := c
  cases label with
  | resume => cases offered
  | arrive seg =>
    cases ran
    obtain ⟨accepted, ⟨⟩⟩ := Option.ite_none_right_eq_some.mp offered
    obtain ⟨port, state, syn, ack, covered, peer⟩ := accepted
    refine ⟨tcpCancelRto (sampleRtt env (trackWindow s seg)), ?_⟩
    have opening : s.state = .synSent := state
    have joined : arrive net env s seg = inputSynSent net env (trackWindow s seg) seg := by
      rw [arrive, if_neg (by simp [port, opening]), tcpInput, if_neg (by simp [opening]), inputState,
        show (trackWindow s seg).state = .synSent from state]
    rw [joined, inputSynSent, if_pos ⟨syn, ack, covered, peer⟩]
    exact plain_tcb (P := fun s' => _ = s'.remoteIp ∧ s'.mss = _) .control (fun s' => .ret s' _) (countSegment_ack _)
      ⟨rfl, rfl⟩ ⟨rfl, rfl⟩
  | event e =>
    cases stack with
    | cons => cases ran
    | nil =>
      cases ran
      cases e with
      | accept lport entry iss =>
        obtain ⟨closed, ⟨⟩⟩ := Option.ite_none_right_eq_some.mp offered
        rw [handle, if_pos closed]
        exact ⟨{ s with remoteIp := entry.remoteIp }, sendLast_tcb
          (P := fun s' => entry.remoteIp = s'.remoteIp ∧ s'.mss = _) ⟨rfl, rfl⟩ ⟨rfl, rfl⟩⟩
      | _ => cases offered

end Size

section Down

variable (net : Interfaces) (dst : Ip) (peer : BitVec 16) {s : Tcb}

/-- A payload of n bytes is one the peer asked for, and IP takes its datagram. -/
def FitsPath (n : Nat) : Prop :=
  (peer ≠ 0#16 → n ≤ peer.toNat) ∧ ∀ nif, ipRoute net dst = some nif → n + 40 ≤ nif.mtu.toNat

/-- The peer takes 536 bytes, and so does the interface that IP routes by; it takes what the other table offers,
or what the peer asks for. -/
def Roomy : Prop :=
  (peer = 0#16 ∨ 536 ≤ peer.toNat) ∧ ∀ nif, ipRoute net dst = some nif → 576 ≤ nif.mtu.toNat ∧
    ((tcpLocalMss net dst).toNat + 40 ≤ nif.mtu.toNat ∨ (peer ≠ 0#16 ∧ peer.toNat + 40 ≤ nif.mtu.toNat))

variable {net dst peer} in
theorem FitsPath.mono {n m : Nat} (fits : FitsPath net dst peer m) (less : n ≤ m) : FitsPath net dst peer n :=
  ⟨fun asked => less.trans (fits.1 asked), fun nif route => (Nat.add_le_add_right less 40).trans (fits.2 nif route)⟩

/-- A segment of the size that was settled fits exactly when the peer and the route have room. -/
theorem negotiated_fits_iff (s : Tcb) :
    FitsPath net s.remoteIp peer (tcpNegotiateMss net s peer).mss.toNat ↔ Roomy net s.remoteIp peer := by
  have size : (tcpNegotiateMss net s peer).mss.toNat = _ := tcpNegotiateMss_toNat peer
  simp only [Roomy]
  generalize (tcpLocalMss net s.remoteIp).toNat = mss at size
  constructor
  · intro full
    refine ⟨?_, fun nif route => ?_⟩
    · by_cases absent : peer = 0#16
      · exact .inl absent
      · have asked := full.1 absent
        exact .inr (by omega)
    · have room := full.2 nif route
      by_cases absent : peer = 0#16
      · rw [if_pos absent] at size
        exact ⟨by omega, .inl (by omega)⟩
      · rw [if_neg absent] at size
        exact ⟨by omega, (Nat.le_total mss peer.toNat).imp (fun _ => by omega) fun _ => ⟨absent, by omega⟩⟩
  · intro ⟨asked, room⟩
    refine ⟨fun offered => ?_, fun nif route => ?_⟩
    · rw [if_neg offered] at size
      rcases asked with absent | asked
      · exact absurd absent offered
      · omega
    · obtain ⟨least, more⟩ := room nif route
      split at size
      next absent =>
        rcases more with more | more
        · omega
        · exact absurd absent more.1
      next => omega

/-! ## What is handed to ip_send -/

def Netif.unlimited (nif : Netif) : Netif := { nif with mtu := 0xffffffff#32 }

/-- The same interfaces with links that carry any datagram: what a pass puts on them is what it hands to ip_send, which
measures it by the real ones. -/
def unlimited : Interfaces := { net with lowers := net.lowers.map Netif.unlimited }

theorem bestMatch_unlimited (best : Option Netif) (lowers : List Netif) :
    bestMatch dst (best.map Netif.unlimited) (lowers.map Netif.unlimited) =
      (bestMatch dst best lowers).map Netif.unlimited := by
  induction lowers generalizing best with
  | nil => rfl
  | cons nif rest ih =>
    simp only [List.map_cons, bestMatch]
    rw [← ih]
    congr 1
    cases best with
    | none => exact (apply_ite (Option.map Netif.unlimited) (nif.covers dst && true) (some nif) none).symm
    | some old => exact (apply_ite (Option.map Netif.unlimited) (nif.covers dst && _) (some nif) (some old)).symm

theorem ipRoute_unlimited : ipRoute (unlimited net) dst = (ipRoute net dst).map Netif.unlimited := by
  have best := bestMatch_unlimited dst none net.lowers
  rw [Option.map_none] at best
  rw [ipRoute, ipRoute, unlimited, best]
  cases bestMatch dst none net.lowers with
  | some nif => rfl
  | none => exact List.find?_map ..

theorem ipRouteSrc_unlimited : ipRouteSrc (unlimited net) dst = ipRouteSrc net dst := by
  rw [ipRouteSrc, ipRouteSrc, ipRoute_unlimited]
  cases ipRoute net dst <;> rfl

variable {net dst} in
theorem ipCarries_unlimited (routed : ipRouteSrc net dst ≠ 0#32) {n : Nat} (small : n < 2 ^ 31) :
    ipCarries (unlimited net) dst (BitVec.ofNat 32 n) = true := by
  rw [ipRouteSrc] at routed
  rw [ipCarries, ipRoute_unlimited]
  cases found : ipRoute net dst with
  | none => simp [found] at routed
  | some nif =>
    have most : (0xffffffff#32 - ipHdrLen).toNat = 4294967275 := rfl
    simp only [Option.map_some, Netif.unlimited, decide_eq_true_eq, BitVec.le_def, toNat_ofNat, most]
    omega

/-- A segment that tcp hands to ip_send on a connection to dst, at any time after the peer offered its MSS. -/
inductive HandsDown (seg : Segment) : Prop where
  | pass {c : Conf} {env env' : Env} {label label' : Label} {res res' : Res} {below below' : List Frame}
      {steps : List (Env × Label)} {wire : Interfaces} (reached : Reach net (fun _ _ _ => True) c)
      (ran : pass net env c label = some (res, below)) (offered : label.offers c.tcb = some peer)
      (peerIs : res.tcb.remoteIp = dst)
      (later : RunOk net (fun c _ label => label.offers c.tcb = none) (res.conf below) steps)
      (links : wire = net ∨ wire = unlimited net) (none : label'.offers (run net (res.conf below) steps).tcb = none)
      (now : pass wire env' (run net (res.conf below) steps) label' = some (res', below'))
      (sent : seg ∈ res'.segments) (toPeer : seg.dstIp = dst) : HandsDown seg

/-- The initial window takes a whole segment. -/
theorem tcpRfc6928Iw_room (mss : BitVec 16) : mss.setWidth 32 ≤ tcpRfc6928Iw mss := by
  have bound : (mss.setWidth 32).toNat < 65536 := by
    rw [BitVec.toNat_setWidth]
    exact Nat.lt_of_le_of_lt (Nat.mod_le _ _) mss.isLt
  unfold tcpRfc6928Iw
  generalize mss.setWidth 32 = wide at bound
  have ten : (10 * wide).toNat = 10 * wide.toNat :=
    (BitVec.toNat_mul ..).trans (Nat.mod_eq_of_lt (by change 10 * _ < _; omega))
  have two : (2 * wide).toNat = 2 * wide.toNat :=
    (BitVec.toNat_mul ..).trans (Nat.mod_eq_of_lt (by change 2 * _ < _; omega))
  have least : (14600 : Word).toNat = 14600 := rfl
  simp only [lt_def, BitVec.le_def]
  split <;> split <;> omega

/-- An idle connection with open windows sends a whole segment at once. -/
theorem trySendChunk_full {body : List Byte} (buf : s.sndBuf = [body]) (size : body.length = s.mss.toNat)
    (any : body ≠ []) (seq : s.sndBufSeq = s.sndNxt) (una : s.sndUna = s.sndNxt) (cwnd : s.mssWord ≤ s.cwnd)
    (wnd : s.mssWord ≤ s.sndWnd) : trySendChunk s = some body := by
  have wide : s.mssWord.toNat = body.length := by
    rw [size]
    exact (BitVec.toNat_setWidth ..).trans (Nat.mod_eq_of_lt (Nat.lt_trans s.mss.isLt (by decide)))
  have all : s.bufLen = s.mssWord := by
    rw [Tcb.bufLen, buf, size_eq, List.flatten_singleton, ← wide]
    exact BitVec.ofNat_toNat ..|>.trans (BitVec.setWidth_eq _)
  have positive : 0#32 < s.mssWord := by
    rw [lt_def, wide]
    exact List.length_pos_iff.mpr any
  have open_ {w : Word} (more : s.mssWord ≤ w) : windowRoom w 0#32 = w := by
    rw [windowRoom, if_pos (by bv_omega)]
    exact BitVec.sub_zero w
  have room : s.mssWord ≤ minWord s.cwnd s.sndWnd := by
    rw [minWord]
    split <;> assumption
  have chunk : minWord s.mssWord (minWord s.cwnd s.sndWnd) = s.mssWord := by
    generalize minWord s.cwnd s.sndWnd = w at room
    rw [minWord]
    split <;> bv_omega
  rw [trySendChunk, if_neg (by simp [buf]), seq, Tcb.inflight, una, BitVec.sub_self, all, if_neg (by bv_omega)]
  simp only [open_ cwnd, open_ wnd, BitVec.sub_zero, chunk]
  rw [if_neg (by bv_omega), if_neg (by bv_omega), buf, gather_eq, List.flatten_singleton, wide]
  exact congrArg some List.take_length

/-- The peer's acknowledgement of the SYN-ACK, with all of the window open. -/
def ackOf : Segment := ⟨dst, 0#32, 80#16, 7#16, 100#32, 1#32, flagAck, 0xffff#16, [], []⟩

def entryOf : Pending := ⟨dst, 80#16, peer, 99#32, 0, false⟩

/-- A connection to dst on which nothing has been sent. -/
structure Unused (s : Tcb) : Prop where
  state : s.state = .established
  buf : s.sndBuf = []
  idle : s.inSend = false
  una : s.sndUna = s.sndNxt
  wnd : s.sndWnd = 0xffff#32
  ip : s.remoteIp = dst
  mss : s.mss = (tcpNegotiateMss net { tcpQopen with remoteIp := dst } peer).mss
  cwnd : s.cwnd = tcpRfc6928Iw s.mss

variable {net dst} in
theorem ackOf_establishes {env : Env} (state : s.state = .synReceived)
    (local_ : s.localPort = 7#16) (nxt : s.sndNxt = 1#32) (ip : s.remoteIp = dst) (port : s.remotePort = 80#16) :
    (arrive net env s (ackOf dst)).conf [] = ⟨establishBlock env (trackWindow s (ackOf dst)) (ackOf dst), []⟩ := by
  have peer : (trackWindow s (ackOf dst)).fromPeer (ackOf dst) = true := by
    simp [trackWindow, Tcb.fromPeer, ackOf, ip, port]
  rw [arrive, if_neg (by simp [local_, state, ackOf]), tcpInput, if_neg (by simp [state]), inputState,
    show (trackWindow s (ackOf dst)).state = .synReceived from state]
  exact congrArg (Res.conf · []) (if_pos ⟨rfl, nxt.symm, peer⟩)

theorem accepted_unused (routed : ipRouteSrc net dst ≠ 0#32) :
    ∃ s, Unused net dst peer s ∧
      run net ((handle net (.calm 1#32) tcpQopen (.accept 7#16 (entryOf dst peer) 0#32)).conf [])
        [(.calm 1#32, .resume), (.calm 2#32, .arrive (ackOf dst))] = ⟨s, []⟩ := by
  let child := acceptBlock net tcpQopen 7#16 (entryOf dst peer) 0#32
  let s := countSegment (.calm 1#32) child flagSynAck []
  have ran : run net ((sendLast net (.calm 1#32) child flagSynAck).conf [])
      [(.calm 1#32, .resume), (.calm 2#32, .arrive (ackOf dst))] =
      (arrive net (.calm 2#32) s (ackOf dst)).conf [] := by
    rw [sendLast, tcpSendSegment, show child.remoteIp = dst from rfl, if_neg routed,
      if_pos (show (Env.calm 1#32).alloc .control = true from rfl)]
    -- the SYN-ACK goes out and its frame returns, or IP refuses it
    cases ipSend net (.calm 1#32) .control (buildSegment net (.calm 1#32) child child.sndNxt flagSynAck []) <;> rfl
  refine ⟨_, ?_, ran.trans (ackOf_establishes rfl rfl rfl rfl rfl)⟩
  obtain ⟨_, _, _, _, eq⟩ := sampleRtt_eq (.calm 2#32) (trackWindow s (ackOf dst))
  rw [establishBlock, eq]
  exact ⟨rfl, rfl, rfl, rfl, rfl, rfl, rfl, rfl⟩

variable {net dst peer} in
/-- On an unused connection a whole segment of data goes to ip_send as it stands. -/
theorem Unused.hands (unused : Unused net dst peer s) (routed : ipRouteSrc net dst ≠ 0#32)
    (payload : Payload) {body : List Byte} (chain : payload.chain = [body])
    (length : body.length = s.mss.toNat) (any : body ≠ []) :
    ∃ res seg frame, pass (unlimited net) (.calm 3#32) ⟨s, []⟩ (.event (.dataReq payload)) = some (res, []) ∧
      res.sent = some (seg, frame) ∧ seg.dstIp = dst ∧ seg.payload = body := by
  have bound := s.mss.isLt
  have wide : s.mssWord ≤ 0xffff#32 := by
    rw [BitVec.le_def, Tcb.mssWord, BitVec.toNat_setWidth]
    exact (Nat.mod_le _ _).trans (Nat.le_of_lt_succ bound)
  have all : size payload.chain = body.length := by rw [chain, size_eq, List.flatten_singleton]
  let t : Tcb := { s with sndBufSeq := s.sndNxt, sndBuf := [body], inSend := true }
  have chunk : trySendChunk t = some body :=
    trySendChunk_full rfl length any rfl unused.una (unused.cwnd ▸ tcpRfc6928Iw_room s.mss) (unused.wnd ▸ wide)
  have emitted : tcpEmitSegment (unlimited net) (.calm 3#32) .fresh t s.sndNxt flagAckPsh body =
      some (buildSegment (unlimited net) (.calm 3#32) t s.sndNxt flagAckPsh body) := by
    have carried : ipCarries (unlimited net) t.remoteIp (BitVec.ofNat 32 (20 + body.length)) = true := by
      rw [show t.remoteIp = dst from unused.ip]
      exact ipCarries_unlimited routed (by omega)
    rw [tcpEmitSegment, show t.remoteIp = dst from unused.ip, ipRouteSrc_unlimited, if_neg routed,
      if_pos (show (Env.calm 3#32).alloc .fresh = true from rfl), ipSend, if_pos]
    exact Bool.and_eq_true_iff.mpr ⟨carried, rfl⟩
  have loop : handle (unlimited net) (.calm 3#32) s (.dataReq payload) =
      trySendLoop (unlimited net) (.calm 3#32) t .ret := by
    have pos := List.length_pos_iff.mpr any
    have room : ¬ tcpSndBufMax < s.bufLen + BitVec.ofNat 32 (size payload.chain) := by
      rw [Tcb.bufLen, unused.buf, all, lt_def, toNat_add, toNat_ofNat, toNat_ofNat,
        show tcpSndBufMax.toNat = 65535 from rfl, show size ([] : Chain Byte) = 0 from rfl]
      omega
    rw [handle, handleDataReq, if_pos unused.state, if_neg (by omega), if_neg room, appendBuf, if_pos unused.buf,
      chain, tcpTrySendPending, if_neg (by simp [unused.idle, unused.state, TcpState.sending])]
    rfl
  refine ⟨_, buildSegment (unlimited net) (.calm 3#32) t s.sndNxt flagAckPsh body, .trySend body.length .ret,
    congrArg (fun res => some (res, [])) loop, ?_, unused.ip, rfl⟩
  rw [trySendLoop, chunk]
  dsimp only
  rw [show t.sndNxt = s.sndNxt from rfl, emitted]
  rfl

theorem ackOf_offers (s : Tcb) : (Label.arrive (ackOf dst)).offers s = none := by
  simp [Label.offers, ackOf, flagAck, Flags.none]

/-- A connection to a routed address hands a whole segment to ip_send. -/
theorem hands_full (routed : ipRouteSrc net dst ≠ 0#32) :
    ∃ seg, HandsDown net dst peer seg ∧
      seg.payload.length = (tcpNegotiateMss net { tcpQopen with remoteIp := dst } peer).mss.toNat := by
  obtain ⟨s, unused, ran⟩ := accepted_unused net dst peer routed
  have bound := s.mss.isLt
  have least : 536 ≤ s.mss.toNat := by
    rw [unused.mss, tcpNegotiateMss_toNat]
    exact Nat.le_max_left _ _
  let body : List Byte := List.replicate s.mss.toNat 0#8
  have length : body.length = s.mss.toNat := List.length_replicate
  have any : body ≠ [] := List.length_pos_iff.mp (by omega)
  have small : size [body] < 2 ^ 31 := by
    rw [size_eq, List.flatten_singleton]
    omega
  obtain ⟨res, seg, frame, now, sent, toPeer, payload⟩ := unused.hands routed ⟨[body], small⟩ rfl length any
  rw [← ran] at now
  have accepted : pass net (.calm 1#32) fresh (.event (.accept 7#16 (entryOf dst peer) 0#32)) = some (_, []) := rfl
  refine ⟨seg, .pass .start accepted rfl ?_ ?_ (.inr rfl) rfl now ?_ toPeer, ?_⟩
  · exact sendLast_tcb (P := fun s' => s'.remoteIp = dst) rfl rfl
  · exact ⟨rfl, ackOf_offers dst _, trivial⟩
  · rw [Res.segments, sent]
    exact List.mem_singleton_self seg
  · rw [payload, length, unused.mss]

variable {net} in
theorem runOk_any (steps : List (Env × Label)) (c : Conf) : RunOk net (fun _ _ _ => True) c steps := by
  induction steps generalizing c with
  | nil => trivial
  | cons step rest ih => exact ⟨trivial, ih _⟩

end Down

def offerLan (mss : BitVec 16) : Label := .event (.accept 7#16 (entryOf 0x0a000002#32 mss) 0#32)

theorem long_small : size [List.replicate 200 1#8] < 2 ^ 31 := by decide +kernel

/-- The byte of the segment's payload lies between two values of rcv_nxt. -/
def Segment.between (seg : Segment) (before after : Word) (i : Nat) : Prop :=
  i < seg.payload.length ∧ seg.seq + BitVec.ofNat 32 i - before < after - before

/-- rcv_nxt has passed no byte that was not handed up. -/
def HandedUp (s : Tcb) (seg : Segment) (res : Res) : Prop :=
  ∀ i, seg.between s.rcvNxt res.tcb.rcvNxt i → Ind.dataInd seg.payload ∈ res.ups

/-- The next bytes of the stream, for which there is a message block. -/
def takesData (env : Env) (s : Tcb) (seg : Segment) : Prop :=
  seg.payload ≠ [] ∧ seg.seq = s.rcvNxt ∧ s.state.sending = true ∧ env.alloc .data = true

theorem inputFin_rcv (net : Interfaces) (env : Env) (s : Tcb) (seg : Segment) :
    ((inputFin net env s seg).tcb.rcvNxt = s.rcvNxt ∨ (seg.seq + seg.len = s.rcvNxt ∧
      (inputFin net env s seg).tcb.rcvNxt = s.rcvNxt + 1#32)) ∧
        ∀ ind ∈ (inputFin net env s seg).ups, ind = .ordrelInd := by
  rw [inputFin]
  split
  next ends =>
    have moved : (finState env (s.setRcvNxt (s.rcvNxt + 1))).rcvNxt = s.rcvNxt + 1#32 := by
      unfold finState
      split <;> rfl
    obtain ⟨emitted, sent, -⟩ := tcpSendSegment_plain net env .ackFin (finState env (s.setRcvNxt (s.rcvNxt + 1)))
      flagAck (countSegment_ack _)
    simp only [sent]
    cases emitted with
    | none => exact ⟨.inr ⟨ends.2, moved⟩, fun ind member => mem_reply member⟩
    | some ack => exact ⟨.inr ⟨ends.2, moved⟩, fun ind member => by cases member⟩
  · exact ⟨.inl rfl, fun ind member => by cases member⟩

theorem Segment.len_toNat (seg : Segment) (small : seg.payload.length < 2 ^ 16) :
    seg.len.toNat = seg.payload.length := by
  rw [Segment.len, toNat_ofNat, Nat.mod_eq_of_lt (by omega)]

section HandedUp

variable {net : Interfaces} {env : Env} {s s' : Tcb} {seg : Segment} {res : Res} {c : Conf}

theorem handedUp_stays (same : res.tcb.rcvNxt = s.rcvNxt) : HandedUp s seg res := by
  rintro i ⟨_, between⟩
  rw [same] at between
  simp at between

-- The FIN stands behind the last byte.
theorem handedUp_fin (small : seg.payload.length < 2 ^ 16) (ends : seg.seq + seg.len = s.rcvNxt)
    (moved : res.tcb.rcvNxt = s.rcvNxt + 1#32) : HandedUp s seg res := by
  rintro i ⟨below, between⟩
  have len := seg.len_toNat small
  rw [moved, ← ends] at between
  simp only [lt_def, toNat_sub, toNat_add, toNat_ofNat] at between
  omega

theorem Recvs.told {cur : Option Segment} {ups : List Ind} (alloc : env.alloc .dataInd = true)
    (delivery : Recvs env cur s ups s') (at_hand : cur = some seg) :
    s'.rcvNxt = s.rcvNxt ∨ .dataInd seg.payload ∈ ups := by
  induction delivery with
  | done => exact .inl rfl
  | idle first _ ih => exact ih.imp_left fun same => same.trans first.rcv
  | data here =>
    cases here.symm.trans at_hand
    exact .inr (List.mem_append_left _ (by rw [replyDataInd, if_pos alloc]; exact List.mem_singleton_self _))

theorem Pass.handedUp (alloc : env.alloc .dataInd = true) (small : seg.payload.length < 2 ^ 16)
    (pass : Pass net env (some seg) s' res) (same : s'.rcvNxt = s.rcvNxt) : HandedUp s seg res := by
  cases pass with
  | fresh => exact handedUp_stays same
  | deliver delivered =>
    cases delivered with
    | run received =>
      rcases received.told alloc rfl with stays | told
      · exact handedUp_stays (stays.trans same)
      · exact fun _ _ => List.mem_append_left _ told
    | @fin t _ _ _ _ received at_hand _ ends =>
      cases at_hand
      rcases received.told alloc rfl with stays | told
      · rw [stays, same] at ends
        refine handedUp_fin small ends ((finState_idle env (t.setRcvNxt (t.rcvNxt + 1))).rcv.trans ?_)
        rw [Tcb.setRcvNxt_rcvNxt, stays, same]
        rfl
      · exact fun _ _ => List.mem_append_left _ told

/-- The segment a pass works on. -/
def Conf.atHand (c : Conf) : Label → Option Segment
  | .arrive seg => some seg
  | .resume => c.stack.head?.bind Frame.cur
  | .event _ => none

theorem Step.handedUp {label : Label} {below : List Frame} (step : Step net env c label res below)
    (at_hand : c.atHand label = some seg) (synced : c.tcb.state ≠ .synSent) (alloc : env.alloc .dataInd = true)
    (small : seg.payload.length < 2 ^ 16) : HandedUp c.tcb seg res := by
  cases step with
  | event => cases at_hand
  | arrive arrived =>
    cases at_hand
    cases arrived with
    | quiet idle => exact handedUp_stays idle.rcv
    | taken _ _ settle pass =>
      refine pass.handedUp alloc small ?_
      cases settle with
      | idle _ idle => exact idle.rcv
      | ack => exact (ackAdvance_acked env _ seg.ack).rcv
      | connect opening => exact absurd opening synced
      | establish =>
        obtain ⟨_, _, _, _, eq⟩ := sampleRtt_eq env (trackWindow c.tcb seg)
        rw [establishBlock, eq]
        rfl
  | resume stack resumed =>
    rw [Conf.atHand, stack] at at_hand
    cases resumed with
    | deliver _ delivered =>
      rw [show Frame.cur _ = some seg from at_hand] at delivered
      exact (Pass.deliver delivered).handedUp alloc small rfl
    | finAck => cases at_hand
    | @trySend gathered after _ pass =>
      rw [show after.cur = some seg from at_hand] at pass
      obtain ⟨_, _, _, _, _, eq⟩ := trySendCount_eq env c.tcb gathered
      exact pass.handedUp alloc small (by rw [eq]; rfl)

end HandedUp

/-- In-order data of any block and any segment: rcv_nxt stays behind what was handed up exactly when the allocation of
T_DATA_IND does not fail on data taken. Nothing else passes a byte: in every pass of a run that works on a segment of an
open connection, what rcv_nxt passes is handed up if that allocation succeeds. -/
theorem acknowledged_handed_up_iff (net : Interfaces) (env : Env) (seg : Segment)
    (small : seg.payload.length < 2 ^ 16) :
    (∀ s, HandedUp s seg (inputData net env s seg) ↔ (takesData env s seg → env.alloc .dataInd = true)) ∧
      ∀ c label res below, Reach net (fun _ _ _ => True) c → pass net env c label = some (res, below) →
        c.atHand label = some seg → c.tcb.state ≠ .synSent → env.alloc .dataInd = true → HandedUp c.tcb seg res := by
  refine ⟨fun s => ?_, fun c label res below reached ran at_hand synced alloc =>
    (pass_step reached.shape ran).handedUp at_hand synced alloc small⟩
  by_cases alloc : env.alloc .dataInd = true
  · exact ⟨fun _ _ => alloc, fun _ => (Pass.deliver (inputData_deliver s seg)).handedUp alloc small rfl⟩
  rw [inputData]
  by_cases takes : takesData env s seg
  · -- the first byte has been passed whether or not the pass waits in ip_send
    refine ⟨fun handed => ?_, fun granted => absurd (granted takes) alloc⟩
    obtain ⟨carries, inOrder, -, -⟩ := id takes
    rw [if_pos (show _ ∧ _ ∧ _ ∧ _ from takes)] at handed
    obtain ⟨emitted, sent, -⟩ := tcpSendSegment_plain net env .ackData (s.setRcvNxt (s.rcvNxt + seg.len)) flagAck
      (countSegment_ack _)
    obtain ⟨rcv, ends⟩ := inputFin_rcv net env (s.setRcvNxt (s.rcvNxt + seg.len)) seg
    have some : 0 < seg.payload.length := List.length_pos_iff.mpr carries
    have len := seg.len_toNat small
    have first := handed 0
    simp only [sent, replyDataInd, if_neg alloc] at first
    cases emitted with
    | some ack =>
      refine absurd (first ⟨some, ?_⟩) (by simp)
      simp only [send_some, Tcb.setRcvNxt_rcvNxt, inOrder, lt_def, toNat_sub, toNat_add, toNat_ofNat]
      omega
    | none =>
      have told := first ⟨some, ?_⟩
      · exact absurd (ends _ (by simpa using told)) (by simp)
      · rcases rcv with next | ⟨-, next⟩ <;>
          simp only [send_none, next, Tcb.setRcvNxt_rcvNxt, inOrder, lt_def, toNat_sub, toNat_add,
            toNat_ofNat] <;> omega
  · rw [if_neg (show ¬ (_ ∧ _ ∧ _ ∧ _) from takes)]
    refine ⟨fun _ taken => absurd taken takes, fun _ => ?_⟩
    rcases (inputFin_rcv net env s seg).1 with stays | ⟨ends, moved⟩
    · exact handedUp_stays stays
    · exact handedUp_fin small ends moved

theorem acknowledged_handed_up_iff_lan : let s := (run lan fresh openLan).tcb
    let seg := fromLan flagAck 100#32 1#32 [1#8]
    takesData (.calm 3#32) s seg ∧ HandedUp s seg (inputData lan (.calm 3#32) s seg) ∧
      HandedUp s seg (arrive lan (.calm 3#32) s seg) := by
  have both := acknowledged_handed_up_iff lan (.calm 3#32) (fromLan flagAck 100#32 1#32 [1#8]) (by decide)
  exact ⟨by unfold takesData; decide +kernel, (both.1 _).mpr fun _ => rfl,
    both.2 _ _ _ _ (.run openLan .start (runOk_any _ _))
    (show pass lan (.calm 3#32) (run lan fresh openLan) (.arrive _) = _ from rfl) rfl (by decide +kernel) rfl⟩

/-- The byte is acknowledged to the peer and nothing has been handed up. -/
theorem acknowledged_byte_lost : let env : Env := { Env.calm 3#32 with alloc := fun site => site != .dataInd }
    let s := (run lan fresh openLan).tcb
    let seg := fromLan flagAck 100#32 1#32 [1#8]
    let res := arrive lan env s seg
    s.state = .established ∧ s.rcvNxt = 100#32 ∧ res.tcb.rcvNxt = 101#32 ∧ res.segments.map (·.ack) = [101#32] ∧
      res.ups = [] ∧ ¬ HandedUp s seg res := by
  have shown : (run lan fresh openLan).tcb.rcvNxt = 100#32 ∧
    (arrive lan { Env.calm 3#32 with alloc := fun site => site != .dataInd } (run lan fresh openLan).tcb
      (fromLan flagAck 100#32 1#32 [1#8])).tcb.rcvNxt = 101#32 := by decide +kernel
  refine ⟨by decide +kernel, shown.1, shown.2, by decide +kernel, by decide +kernel, fun handed => ?_⟩
  have told := handed 0 ⟨by decide, by decide⟩
  exact absurd told (by decide +kernel)

end Kappara.Tcp
