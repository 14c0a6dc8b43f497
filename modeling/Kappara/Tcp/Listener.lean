import Kappara.Lib.Run
import Kappara.Tcp.Answers
import Kappara.Tcp.System

/-! Listeners: the backlog ring and the refusal of segments for closed ports
(tcp_input_segment, tcp_accept_into, tcp_min_listener_port and tcp_rst_closed of
uts/os/net/tcp.c).

A SYN is queued without a look at what the ring and the table hold already. A SYN
for a port nobody listens on reaches every bound stream; the listener with the
lowest port answers it for all. -/

set_option autoImplicit false

namespace Kappara.Tcp

open Net

abbrev Peer := Ip × Port

def Segment.peer (seg : Segment) : Peer := (seg.srcIp, seg.srcPort)

def Tcb.backlog (s : Tcb) : List Peer :=
  (List.range s.pendingCount).map fun k =>
    let entry := s.pendingQ (s.pendingHead + Fin.ofNat 8 k)
    (entry.remoteIp, entry.remotePort)

/-- A listener, and the peers whose connections it has accepted and that are still there. -/
structure Listener where
  tcb : Tcb
  accepted : List Peer

inductive ListenerMove where
  | arrive (seg : Segment)
  | connRes
  | ended (peer : Peer)

namespace Listener

variable {net : Interfaces} {env : Env} {s : Tcb} {l : Listener} {seg : Segment}

def step (net : Interfaces) (l : Listener) : Env × ListenerMove → Option Listener
  | (env, .arrive seg) => some { l with tcb := (Tcp.arrive net env l.tcb seg).tcb }
  | (env, .connRes) =>
    if l.tcb.state = .listen ∧ 0 < l.tcb.pendingCount then
      let entry := (popPending l.tcb).1
      some ⟨(handle net env l.tcb .connRes).tcb, (entry.remoteIp, entry.remotePort) :: l.accepted⟩
    else some l
  | (_, .ended peer) => some { l with accepted := l.accepted.erase peer }

def Started (l : Listener) : Prop := l.tcb.state = .listen ∧ l.tcb.pendingCount = 0 ∧ l.accepted = []

/-- A SYN for which there is room comes from a peer that neither waits nor has been accepted. -/
def fresh (l : Listener) : Env × ListenerMove → Prop
  | (_, .arrive seg) => seg.flags.syn = true → seg.dstPort = l.tcb.localPort → l.tcb.pendingCount < tcpListenBacklog →
      seg.peer ∉ l.tcb.backlog ++ l.accepted
  | (_, _) => True

instance (l : Listener) (act : Env × ListenerMove) : Decidable (fresh l act) :=
  match act with
  | (_, .arrive _) => inferInstanceAs (Decidable (_ → _ → _ → _))
  | (_, .connRes) | (_, .ended _) => isTrue trivial

theorem arrive_listen (listening : s.state = .listen) :
    (arrive net env s seg).tcb = s ∧ (arrive net env s seg).ups = [] ∨
    (seg.flags.syn = true ∧ seg.dstPort = s.localPort ∧ s.pendingCount < tcpListenBacklog ∧
      (arrive net env s seg).tcb.state = .listen ∧ (arrive net env s seg).tcb.pendingCount = s.pendingCount + 1 ∧
      (arrive net env s seg).tcb.backlog = s.backlog ++ [seg.peer]) := by
  rw [arrive]
  split
  · exact .inl ⟨rfl, rfl⟩
  next here =>
    rw [not_or, not_not] at here
    rw [tcpInput, if_pos listening, inputState, listening]
    simp only [inputListen]
    split
    next room =>
      refine .inr ⟨room.1, here.1, room.2, listening, rfl, ?_⟩
      simp only [Res.ret, Tcb.backlog, List.range_succ, List.map_append, List.map_cons]
      congr 1
      refine List.map_congr_left fun k below => ?_
      have small := room.2
      rw [List.mem_range] at below
      rw [tcpListenBacklog] at small
      rw [if_neg]
      rw [add_right_inj, Fin.ext_iff, Fin.val_ofNat, Fin.val_ofNat]
      omega
    · exact .inl ⟨rfl, rfl⟩

theorem backlog_pop (some : 0 < s.pendingCount) : s.backlog =
    ((popPending s).1.remoteIp, (popPending s).1.remotePort) :: (popPending s).2.backlog := by
  obtain ⟨count, counted⟩ : ∃ count, s.pendingCount = count + 1 := ⟨s.pendingCount - 1, by omega⟩
  simp only [Tcb.backlog, popPending, counted, List.range_succ_eq_map, List.map_cons, List.map_map]
  refine congrArg₂ List.cons (by simp) (List.map_congr_left fun k _ => ?_)
  have next : s.pendingHead + Fin.ofNat 8 (k + 1) = s.pendingHead + 1 + Fin.ofNat 8 k := by
    rw [add_assoc, add_right_inj, Fin.ext_iff, Fin.val_add, Fin.val_ofNat, Fin.val_ofNat]
    omega
  simp only [Function.comp, next]

/-- Every peer waits once or has been accepted once. -/
structure Inv (l : Listener) : Prop where
  listening : l.tcb.state = .listen
  once : (l.tcb.backlog ++ l.accepted).Nodup

theorem Inv.step {l' : Listener} {act : Env × ListenerMove} (inv : Inv l) (met : fresh l act)
    (made : step net l act = some l') : Inv l' := by
  obtain ⟨env, move⟩ := act
  cases move with
  | arrive seg =>
    cases made
    rcases arrive_listen inv.listening with ⟨same, -⟩ | ⟨syn, port, room, listening, -, queued⟩
    · rw [same]
      exact inv
    · refine ⟨listening, ?_⟩
      rw [queued, List.append_assoc, List.singleton_append]
      exact List.nodup_middle.mpr (List.nodup_cons.mpr ⟨met syn port room, inv.once⟩)
  | connRes =>
    rw [Listener.step] at made
    split at made
    next pending =>
      cases made
      simp only [handle, if_pos pending]
      refine ⟨inv.listening, ?_⟩
      have once := inv.once
      rw [backlog_pop pending.2, List.cons_append] at once
      exact List.nodup_middle.mpr once
    · cases made
      exact inv
  | ended peer =>
    cases made
    refine ⟨inv.listening, ?_⟩
    exact inv.once.sublist ((List.Sublist.refl _).append List.erase_sublist)

end Listener

/-- While no peer repeats a SYN that finds room, every peer has one entry in the ring or one accepted connection,
and another SYN of it changes nothing. -/
theorem backlog_distinct_when_fresh (net : Interfaces) (l : Listener)
    (reached : Run.Reach (Listener.step net) Listener.fresh Listener.Started l) :
    l.tcb.backlog.Nodup ∧ (∀ peer ∈ l.tcb.backlog, peer ∉ l.accepted) ∧
      ∀ env seg, Listener.fresh l (env, .arrive seg) → seg.peer ∈ l.tcb.backlog ++ l.accepted →
        (arrive net env l.tcb seg).tcb.backlog = l.tcb.backlog ∧ (arrive net env l.tcb seg).ups = [] := by
  have inv : Listener.Inv l := by
    apply reached.invariant _ fun _ _ _ inv met made => Listener.Inv.step inv met made
    rintro l ⟨listening, none, nobody⟩
    exact ⟨listening, by simp [Tcb.backlog, none, nobody]⟩
  have once := inv.once
  rw [List.nodup_append] at once
  refine ⟨once.1, fun peer waits accepted => once.2.2 peer waits peer accepted rfl, ?_⟩
  intro env seg met known
  rcases Listener.arrive_listen inv.listening with ⟨same, silent⟩ | ⟨syn, port, room, -⟩
  · exact ⟨by rw [same], silent⟩
  · exact absurd known (met syn port room)

def listenLan : Listener := ⟨{ tcpQopen with state := .listen, localPort := 7#16, bound := true }, []⟩

def synLan : Env × ListenerMove := (.calm 1#32, .arrive (fromLan flagSyn 100#32 0#32 []))

/-- Port 80 is accepted, and ports 81 and 82 wait. -/
theorem backlog_distinct_when_fresh_accepted : ∃ l : Listener, l.accepted = [(0x0a000002#32, 80#16)] ∧
    l.tcb.backlog = [(0x0a000002#32, 81#16), (0x0a000002#32, 82#16)] ∧ l.tcb.backlog.Nodup ∧
    ∀ peer ∈ l.tcb.backlog, peer ∉ l.accepted := by
  let syn (port : Port) : Env × ListenerMove :=
    (.calm 3#32, .arrive { fromLan flagSyn 100#32 0#32 [] with srcPort := port })
  obtain ⟨l, -, ⟨taken, waiting⟩, distinct⟩ := Run.Reach.found_with
    (P := fun l => l.accepted = [(0x0a000002#32, 80#16)] ∧
    l.tcb.backlog = [(0x0a000002#32, 81#16), (0x0a000002#32, 82#16)])
    (backlog_distinct_when_fresh lan) [synLan, (.calm 2#32, .connRes), syn 81#16, syn 82#16]
    (s := listenLan) ⟨rfl, rfl, rfl⟩ (by decide +kernel)
  exact ⟨l, taken, waiting, distinct.1, distinct.2.1⟩

/-- The SYN repeated before the first one is accepted takes a second slot and raises a second T_CONN_IND. -/
theorem repeated_syn_queued_twice : ∃ l : Listener, Run.Reach (Listener.step lan) (fun _ _ => True) Listener.Started l ∧
    ¬ l.tcb.backlog.Nodup ∧ (arrive lan (.calm 2#32) listenLan.tcb (fromLan flagSyn 100#32 0#32 [])).ups ≠ [] := by
  obtain ⟨l, reached, twice⟩ : ∃ l, Run.Reach (Listener.step lan) (fun _ _ => True) Listener.Started l ∧
      ¬ l.tcb.backlog.Nodup :=
    Run.Reach.found [synLan, synLan] (s := listenLan) ⟨rfl, rfl, rfl⟩ (by decide +kernel)
  exact ⟨l, reached, twice, by decide +kernel⟩

/-! ## Refusals -/

/-- What goes out when a segment is fanned out: the refusal of a listener, or what a block sends on its own. -/
inductive Answer where
  | refusal (rst : Segment)
  | own (id : Nat) (seg : Segment)
  deriving DecidableEq

/-- The answers of one bound stream. No segment makes or unmakes a listener, so every copy meets the same table. -/
def answersAt (net : Interfaces) (env : Nat → Env) (sys : System) (seg : Segment) (q : Nat) : List Answer :=
  match dispatch sys q seg with
  | .dropped => []
  | .refused rst => [.refusal rst]
  | .handed id => ((sys.tcbs id).map fun c => ((arrive net (env q) c.tcb seg).segments.map (.own id))).getD []

def answers (net : Interfaces) (env : Nat → Env) (sys : System) (seg : Segment) : List Answer :=
  (ipDemux sys.uppers ipprotoTcp).flatMap (answersAt net env sys seg)

def System.listensAt (sys : System) (id : Nat) (port : Port) : Prop :=
  ∃ c, sys.tcbs id = some c ∧ c.tcb.state = .listen ∧ c.tcb.localPort = port

/-- The reset of RFC 793 for a SYN nobody expects: addresses and ports swapped, and an acceptable number. -/
structure Refuses (seg rst : Segment) : Prop where
  addresses : rst.srcIp = seg.dstIp ∧ rst.dstIp = seg.srcIp
  ports : rst.srcPort = seg.dstPort ∧ rst.dstPort = seg.srcPort
  reset : rst.flags.rst = true
  acked : seg.flags.ack = true → rst.seq = seg.ack ∧ rst.flags.ack = false
  unacked : seg.flags.ack = false → rst.seq = 0#32 ∧ rst.flags.ack = true ∧
    rst.ack = seg.seq + seg.len + 1#32 + if seg.flags.fin then 1#32 else 0#32

theorem tcpRstClosed_refuses {seg : Segment} (syn : seg.flags.syn = true) (clear : seg.flags.rst = false) :
    ∃ rst, tcpRstClosed seg = some rst ∧ Refuses seg rst := by
  refine ⟨_, by rw [tcpRstClosed, if_neg (by simp [clear])], ⟨rfl, rfl⟩, ⟨rfl, rfl⟩, ?_, fun acked => ?_,
    fun plain => ?_⟩
  · split <;> rfl
  · simp [acked, flagRst, Flags.none]
  · simp [plain, syn, BitVec.add_assoc]

section Own

variable (net : Interfaces) (env : Env)

/-- Data or a FIN in order is acknowledged, if the acknowledgement gets out. -/
def acksInOrder (s : Tcb) (seg : Segment) : Bool :=
  if seg.payload ≠ [] ∧ seg.seq = s.rcvNxt ∧ s.state.sending ∧ env.alloc .data then
    emits net env .ackData s.remoteIp 0 || seg.flags.fin && emits net env .ackFin s.remoteIp 0
  else seg.flags.fin && seg.seq + seg.len == s.rcvNxt && emits net env .ackFin s.remoteIp 0

/-- What makes a block answer a SYN for its port: the SYN-ACK it waits for; on a connection, an acknowledgement that
lets bytes out, or data or a FIN in order; and in TIME_WAIT the FIN once more. -/
def answersSyn (s : Tcb) (seg : Segment) : Bool :=
  s.fromPeer seg && match s.state with
    | .synSent => seg.flags.ack && seg.ack == s.sndNxt && emits net env .control s.remoteIp 0
    | .established | .finWait1 | .finWait2 | .closeWait | .lastAck =>
      seg.flags.ack && advances s seg && !s.inSend && s.state.sending && letsOut net env s seg ||
        acksInOrder net env s seg
    | .timeWait => seg.flags.fin && seg.seq + 1 == s.rcvNxt && emits net env .control s.remoteIp 0
    | _ => false

variable {s : Tcb} {seg : Segment}

theorem send_sent (ups : List Ind) (s : Tcb) (emitted : Option Segment) (frame : Frame) (next : Res) :
    (Res.send ups s emitted frame next).sent.isSome = (emitted.isSome || next.sent.isSome) := by
  cases emitted <;> rfl

theorem inputFin_sent : (inputFin net env s seg).sent.isSome =
    (seg.flags.fin && seg.seq + seg.len == s.rcvNxt && emits net env .ackFin s.remoteIp 0) := by
  have peer : (finState env (s.setRcvNxt (s.rcvNxt + 1))).remoteIp = s.remoteIp := by
    unfold finState
    split <;> rfl
  have out := tcpSendSegment_isSome net env .ackFin (finState env (s.setRcvNxt (s.rcvNxt + 1))) flagAck rfl
  unfold inputFin
  split
  next fin =>
    dsimp only
    rw [send_sent, out, peer]
    simp [fin, Res.ret]
  next none =>
    simp only [Res.ret, Option.isSome_none]
    grind

theorem inputData_sent : (inputData net env s seg).sent.isSome = acksInOrder net env s seg := by
  unfold inputData acksInOrder
  split
  next data =>
    obtain ⟨emitted, sent, -⟩ := tcpSendSegment_plain net env .ackData (s.setRcvNxt (s.rcvNxt + seg.len)) flagAck
      (countSegment_ack _)
    have out := tcpSendSegment_isSome net env .ackData (s.setRcvNxt (s.rcvNxt + seg.len)) flagAck rfl
    rw [sent] at out
    simp only [sent, send_sent, inputFin_sent, data.2.1]
    rw [out]
    simp
  · exact inputFin_sent net env

theorem acksInOrder_congr {t : Tcb} (rcv : t.rcvNxt = s.rcvNxt) (state : t.state.sending = s.state.sending)
    (peer : t.remoteIp = s.remoteIp) : acksInOrder net env t seg = acksInOrder net env s seg := by
  unfold acksInOrder
  rw [rcv, state, peer]

theorem afterAck_sent : (afterAck net env s seg).sent.isSome = acksInOrder net env s seg := by
  have idle := ackState_idle env s
  have state : (ackState env s).state.sending = s.state.sending := by
    unfold ackState
    split
    · split <;> simp_all [TcpState.sending, tcpEnterTimeWait, tcpCancelRto]
    · rfl
  have peer : (ackState env s).remoteIp = s.remoteIp := by
    obtain ⟨_, _, _, _, eq⟩ := sampleRtt_eq env s
    unfold ackState
    rw [eq]
    split
    · split <;> rfl
    · rfl
  rw [afterAck, inputData_sent]
  exact acksInOrder_congr net env idle.rcv state peer

theorem trySendLoop_sent : (trySendLoop net env s (.input seg)).sent.isSome =
    (sendsOn net env s || acksInOrder net env s seg) := by
  have done : (continueAfter net env (s.setInSend false) (.input seg)).sent.isSome = acksInOrder net env s seg :=
    afterAck_sent net env
  unfold trySendLoop sendsOn
  cases trySendChunk s with
  | none => simpa using done
  | some data =>
    dsimp only
    rw [send_sent, done]

theorem inputConnected_sent (syn : seg.flags.syn = true) (clear : seg.flags.rst = false) :
    (inputConnected net env (trackWindow s seg) seg).sent.isSome =
      (s.fromPeer seg && (seg.flags.ack && advances s seg && !s.inSend && s.state.sending && letsOut net env s seg ||
        acksInOrder net env s seg)) := by
  have acked := ackAdvance_acked env (trackWindow s seg) seg.ack
  have advanced : acksInOrder net env (ackAdvance env (trackWindow s seg) seg.ack) seg = acksInOrder net env s seg :=
    acksInOrder_congr net env acked.rcv (congrArg _ acked.state) acked.tuple.2.1
  have plain : isDupAck (trackWindow s seg) seg = false := by simp [isDupAck, syn]
  rw [inputConnected, show (trackWindow s seg).fromPeer seg = s.fromPeer seg from rfl,
    show advances (trackWindow s seg) seg = advances s seg from rfl, plain, clear]
  cases s.fromPeer seg with
  | false => rfl
  | true =>
    cases seg.flags.ack with
    | false => exact inputData_sent net env
    | true =>
      cases advances s seg with
      | false => exact afterAck_sent net env
      | true =>
        rw [← sendsOn_ackAdvance, ← advanced, tcpTrySendPending, acked.inSend, acked.state]
        change (if s.inSend || !s.state.sending then afterAck .. else _).sent.isSome = _
        cases s.inSend <;> cases s.state.sending
        case false.true => exact trySendLoop_sent net env
        all_goals exact afterAck_sent net env

theorem arrive_sent (port : seg.dstPort = s.localPort) (state : s.state ≠ .listen) (syn : seg.flags.syn = true)
    (clear : seg.flags.rst = false) : (arrive net env s seg).sent.isSome = answersSyn net env s seg := by
  have connected := inputConnected_sent net env (s := s) syn clear
  rw [arrive_input net env port state, inputState, answersSyn, show (trackWindow s seg).state = s.state from rfl]
  cases here : s.state with
  | listen => exact absurd here state
  | closed | bound | closing => simp [Res.ret]
  | established | finWait1 | finWait2 | closeWait | lastAck =>
    rw [here] at connected
    exact connected
  | synReceived =>
    simp only [inputSynReceived]
    split <;> simp [Res.ret]
  | synSent =>
    have out := tcpSendSegment_isSome net env .control (connectBlock net env (trackWindow s seg) seg) flagAck rfl
    rw [(connectBlock_opened net env (trackWindow s seg) seg).tuple.2.1] at out
    change (inputSynSent net env (trackWindow s seg) seg).sent.isSome = _
    unfold inputSynSent
    rw [show (trackWindow s seg).fromPeer seg = s.fromPeer seg from rfl]
    split
    next acks =>
      dsimp only
      rw [send_sent, out, acks.2.1, acks.2.2.1, acks.2.2.2]
      simp [Res.ret, trackWindow]
    next other =>
      simp only [Res.ret, Option.isSome_none]
      have same : (trackWindow s seg).sndNxt = s.sndNxt := rfl
      grind
  | timeWait =>
    change (inputTimeWait net env (trackWindow s seg) seg).sent.isSome = _
    unfold inputTimeWait
    rw [show (trackWindow s seg).fromPeer seg = s.fromPeer seg from rfl,
      show (trackWindow s seg).rcvNxt = s.rcvNxt from rfl]
    split
    next again =>
      rw [sendLast]
      dsimp only
      rw [send_sent, tcpSendSegment_isSome net env .control _ _ rfl, again.1, again.2.1, again.2.2]
      simp [Res.ret, trackWindow]
    next other =>
      simp only [Res.ret, Option.isSome_none]
      grind

end Own

section Election

variable {sys : System} {seg : Segment}

/-- The port the fold ends with is the port of a listener in the table. -/
theorem minListener_fold (ids : List Nat) (min : Port) (inside : ∀ id ∈ ids, id ∈ sys.table.toList)
    (found : (∃ id ∈ sys.table.toList, sys.listensAt id min) ∨
    (min = 0#16 ∧ ∃ id ∈ ids, ∃ port, sys.listensAt id port)) :
    ∃ id ∈ sys.table.toList, sys.listensAt id (ids.foldl (fun min id =>
      match sys.tcbs id with
      | none => min
      | some c =>
        if c.tcb.state = .listen ∧ (min = 0#16 ∨ c.tcb.localPort < min) then c.tcb.localPort else min) min) := by
  induction ids generalizing min with
  | nil => simpa using found
  | cons id rest ih =>
    rw [List.foldl_cons]
    apply ih
    · exact fun id' member => inside id' (List.mem_cons_of_mem _ member)
    cases block : sys.tcbs id with
    | none =>
      refine found.imp_right fun ⟨zero, id', member, port, listens⟩ => ⟨zero, id', ?_, port, listens⟩
      rcases List.mem_cons.mp member with rfl | later
      · obtain ⟨c, here, -⟩ := listens
        rw [block] at here
        cases here
      · exact later
    | some c =>
      dsimp only
      split
      next lower => exact .inl ⟨id, inside id List.mem_cons_self, c, block, lower.1, rfl⟩
      next higher =>
        refine found.imp_right fun ⟨zero, id', member, port, listens⟩ => ⟨zero, id', ?_, port, listens⟩
        rcases List.mem_cons.mp member with rfl | later
        · obtain ⟨c', here, listening, -⟩ := listens
          rw [block] at here
          cases here
          exact absurd ⟨listening, .inl zero⟩ higher
        · exact later

theorem flatMap_eq_singleton {α β : Type} [DecidableEq α] {f : α → List β} {a : α} {b : β} (here : f a = [b])
    (elsewhere : ∀ x, x ≠ a → b ∉ f x) (xs : List α) :
    xs.flatMap f = [b] ↔ xs.count a = 1 ∧ ∀ x ∈ xs, x ≠ a → f x = [] := by
  induction xs with
  | nil => simp
  | cons x rest ih =>
    by_cases same : x = a
    · subst same
      have alone : rest.flatMap f = [] ↔ x ∉ rest ∧ ∀ y ∈ rest, y ≠ x → f y = [] := by
        rw [List.flatMap_eq_nil_iff]
        constructor
        · exact fun empty => ⟨fun member => by simpa [here] using empty x member, fun y member _ => empty y member⟩
        · intro ⟨absent, others⟩ y member
          exact others y member fun same => absent (same ▸ member)
      simp [here, alone, List.count_eq_zero]
    · have none : b ∉ f x := elsewhere x same
      cases first : f x with
      | nil => simp [ih, List.count_cons_of_ne same, first]
      | cons y ys =>
        have differ : y ≠ b := fun equal => none (by simp [first, equal])
        simp [differ, first, same]

/-- The port belongs to no listener and to no bound block. -/
def System.closed (sys : System) (port : Port) : Prop :=
  ∀ id c, sys.tcbs id = some c → c.tcb.state = .listen ∨ c.tcb.state = .bound → c.tcb.localPort ≠ port

theorem System.closed.noListener {port : Port} (closed : sys.closed port) : tcpPortHasListener sys port = false := by
  rw [tcpPortHasListener, List.any_eq_false]
  intro id _ found
  cases block : sys.tcbs id with
  | none => simp [System.blockIs, block] at found
  | some c =>
    simp only [System.blockIs, block, Bool.and_eq_true, Bool.or_eq_true, beq_iff_eq] at found
    exact closed id c block found.2 found.1

section Copies

variable {net : Interfaces} {env : Nat → Env} {q₀ q : Nat} {rst : Segment} (closed : sys.closed seg.dstPort)
  (first : sys.listensAt q₀ (tcpMinListenerPort sys))
include closed first

theorem answersAt_first (syn : seg.flags.syn = true) (clear : seg.flags.rst = false)
    (made : tcpRstClosed seg = some rst) : answersAt net env sys seg q₀ = [.refusal rst] := by
  obtain ⟨⟨s, stack⟩, block, listening, port⟩ := first
  have other : seg.dstPort ≠ s.localPort := (closed q₀ _ block (.inl listening)).symm
  simp only [answersAt, dispatch, block]
  rw [if_pos other, if_pos ⟨syn, by simp [clear], listening, port, by simp [closed.noListener]⟩, made]

/-- Another stream refuses nothing; on the port it has only its block's answers. -/
theorem answersAt_other (net : Interfaces) (env : Nat → Env) (syn : seg.flags.syn = true)
    (clear : seg.flags.rst = false)
    (apart : ∀ id id' port, sys.listensAt id port → sys.listensAt id' port → id = id') (other : q ≠ q₀) :
    (∀ rst, .refusal rst ∉ answersAt net env sys seg q) ∧ (answersAt net env sys seg q = [] ↔
      ∀ c, sys.tcbs q = some c → c.tcb.localPort = seg.dstPort → answersSyn net (env q) c.tcb seg = false) := by
  cases block : sys.tcbs q with
  | none => simp [answersAt, dispatch, block]
  | some c =>
    obtain ⟨s, stack⟩ := c
    by_cases port : seg.dstPort = s.localPort
    · have idle : s.state ≠ .listen := fun listening => closed q _ block (.inl listening) port.symm
      have sent := arrive_sent net (env q) port idle syn clear
      simp [answersAt, dispatch, block, port, idle, Res.segments, ← sent]
    · have unelected : ¬ (s.state = .listen ∧ s.localPort = tcpMinListenerPort sys) :=
        fun ⟨listening, lowest⟩ => other (apart q q₀ _ ⟨_, block, listening, lowest⟩ first)
      have dropped : dispatch sys q seg = .dropped := by
        simp only [dispatch, block]
        rw [if_pos port, if_neg fun ⟨_, _, listening, lowest, _⟩ => unelected ⟨listening, lowest⟩]
      simp [answersAt, dropped, Ne.symm port]

end Copies

end Election

def opening : System where
  tcbs id :=
    if id = 0 then some ⟨{ tcpQopen with state := .listen, localPort := 80#16, bound := true }, []⟩
    else if id = 1 then
      some ⟨{ tcpQopen with state := .synSent, localPort := 7#16, bound := true, remoteIp := 0x0a000002#32,
                            remotePort := 80#16, sndNxt := 1#32 }, []⟩
    else none
  table slot := if slot.val < 2 then some slot.val else none
  uppers slot := if slot.val < 2 then some ⟨ipprotoTcp, 0#32, slot.val⟩ else none

theorem opening_block {id : Nat} {c : Conf} (block : opening.tcbs id = some c) :
    (id = 0 ∧ c.tcb.state = .listen ∧ c.tcb.localPort = 80#16) ∨
    (id = 1 ∧ c.tcb.state = .synSent ∧ c.tcb.localPort = 7#16) := by
  simp only [opening] at block
  split at block
  next first =>
    cases block
    exact .inl ⟨first, rfl, rfl⟩
  · obtain ⟨second, ⟨⟩⟩ := Option.ite_none_right_eq_some.mp block
    exact .inr ⟨second, rfl, rfl⟩

theorem opening_listensAt {id : Nat} {port : Port} (listens : opening.listensAt id port) : id = 0 := by
  obtain ⟨c, block, listening, -⟩ := listens
  rcases opening_block block with ⟨first, -⟩ | ⟨-, state, -⟩
  · exact first
  · rw [listening] at state
    cases state

theorem opening_closed {port : Port} (other : port ≠ 80#16) : opening.closed port := by
  intro id c block idle same
  rcases opening_block block with ⟨-, -, http⟩ | ⟨-, state, -⟩
  · exact other (same.symm.trans http)
  · simp [state] at idle

def orphanSyn : Segment := { fromLan flagSyn 100#32 0#32 [] with dstPort := 9#16 }

end Kappara.Tcp
