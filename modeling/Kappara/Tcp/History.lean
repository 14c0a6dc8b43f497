import Kappara.Tcp.Frames

/-! What a block has accepted, delivered and emitted for its current connection.

A host is a configuration with this history beside it. The history is written
at every pass and read by none. -/

set_option autoImplicit false

namespace Kappara.Tcp

open BlockChain Net

def Label.starts (s : Tcb) : Label → Bool
  | .event e => e.starts s
  | .arrive _ | .resume => false

def Label.accepted (s : Tcb) : Label → List Byte
  | .event e => e.accepted s
  | .arrive _ | .resume => []

structure Host where
  conf : Conf
  started : Bool
  accepted : List Byte
  ups : List Ind
  out : List Segment

def Host.opened : Host := ⟨fresh, false, [], [], []⟩

section

variable (net : Interfaces) (h : Host)

-- A connection that starts begins a new history.
def Host.after (label : Label) (res : Res) (below : List Frame) : Host :=
  let begins := label.starts h.conf.tcb
  { conf := res.conf below
    started := h.started || begins
    accepted := (if begins then [] else h.accepted) ++ label.accepted h.conf.tcb
    ups := (if begins then [] else h.ups) ++ res.ups
    out := (if begins then [] else h.out) ++ res.segments }

inductive HostReach (ok : Conf → Env → Label → Prop) : Host → Prop where
  | start : HostReach ok .opened
  | next {h : Host} {env : Env} {label : Label} {res : Res} {below : List Frame} : HostReach ok h →
      ok h.conf env label → pass net env h.conf label = some (res, below) → HostReach ok (h.after label res below)

def Host.next (step : Env × Label) : Host :=
  match pass net step.1 h.conf step.2 with
  | some (res, below) => h.after step.2 res below
  | none => h

def Host.run : Host → List (Env × Label) → Host
  | h, [] => h
  | h, step :: rest => Host.run (h.next net step) rest

theorem Host.next_conf (step : Env × Label) :
    (h.next net step).conf = Tcp.next net h.conf step := by
  rw [Host.next, Tcp.next]
  cases pass net step.1 h.conf step.2 <;> rfl

end

variable {ok : Conf → Env → Label → Prop} {seg : Segment} {frame : Frame}

theorem HostReach.run {net : Interfaces} {h : Host} (steps : List (Env × Label))
    (reached : HostReach net ok h) (all : RunOk net ok h.conf steps) : HostReach net ok (h.run net steps) := by
  induction steps generalizing h with
  | nil => exact reached
  | cons step rest ih =>
    apply ih
    · rw [Host.next]
      split
      next res below ran => exact .next reached all.1 ran
      · exact reached
    · rw [Host.next_conf]
      exact all.2

section Buffer

variable {net : Interfaces} {env : Env} {cur : Option Segment} {s s' : Tcb} {res : Res} {below : List Frame}

theorem Acked.suffix {ack : Word} (acked : Acked s ack s') : s'.sndBuf.flatten <:+ s.sndBuf.flatten := by
  rcases acked.buf with ⟨_, after⟩ | ⟨_, _, after⟩ | ⟨_, _, after, _⟩
  · rw [after]
    exact List.nil_suffix
  · rw [after]
    exact List.nil_suffix
  · rw [after, trim_flatten]
    exact List.drop_suffix _ _

theorem Settle.suffix (settled : Settle net env s seg s') : s'.sndBuf.flatten <:+ s.sndBuf.flatten := by
  cases settled with
  | idle _ idle => rw [idle.buf]
  | ack => exact (ackAdvance_acked env _ seg.ack).suffix
  | connect => rw [(connectBlock_opened net env _ seg).buf]; exact List.suffix_rfl
  | establish => rw [(establishBlock_opened env _ seg).buf]; exact List.suffix_rfl

theorem headChunk_infix (s : Tcb) : headChunk s <:+: s.sndBuf.flatten := by
  rw [headChunk]
  cases buf : s.sndBuf with
  | nil => simp
  | cons block rest =>
    exact (List.take_prefix _ _).isInfix.trans (List.prefix_append _ _).isInfix

theorem gather_infix (chain : Chain Byte) (skip want : Nat) : gather chain skip want <:+: chain.flatten := by
  rw [gather_eq]
  exact (List.take_prefix _ _).isInfix.trans (List.drop_suffix _ _).isInfix

theorem Emits.payload (emits : Emits net env cur s (some (seg, frame))) : seg.payload <:+: s.sndBuf.flatten := by
  cases emits with
  | bare | repeated => exact List.nil_infix
  | again => exact headChunk_infix s
  | reset _ empty => rw [empty]; exact List.nil_infix

/-- Whatever leaves carries bytes of the send buffer as it then is. -/
theorem Pass.payload (pass : Pass net env cur s res)
    (sent : res.sent = some (seg, frame)) : seg.payload <:+: res.tcb.sndBuf.flatten := by
  cases pass with
  | fresh _ _ _ chunk =>
    cases sent
    obtain ⟨want, same⟩ := (trySendChunk_spec chunk).gathered
    rw [same]
    exact gather_infix _ _ _
  | deliver pass =>
    cases pass with
    | run _ _ emits =>
      cases sent
      exact emits.payload
    | fin _ _ _ _ _ finish =>
      rw [(finish seg frame sent).2]
      exact List.nil_infix

theorem mem_segments (member : seg ∈ res.segments) : ∃ frame, res.sent = some (seg, frame) := by
  obtain ⟨s, ups, sent⟩ := res
  rcases sent with _ | ⟨last, frame⟩
  · cases member
  · rw [List.mem_singleton.mp member]
    exact ⟨frame, rfl⟩

theorem Control.buf {flags : Flags} (control : Control net env s flags res) (one : flags.syn = !flags.fin) :
    res.tcb.sndBuf = s.sndBuf := by
  cases control with
  | skipped => rfl
  | counted => exact (countSegment_counted env s flags one).buf

theorem Control.payload {flags : Flags} (control : Control net env s flags res)
    (sent : res.sent = some (seg, frame)) : seg.payload = [] := by
  cases control with
  | skipped => cases sent
  | counted last =>
    rcases last with rfl | rfl
    · cases sent
    · cases sent
      rfl

theorem trySendCount_buf (env : Env) (s : Tcb) (n : Nat) : (trySendCount env s n).sndBuf = s.sndBuf := by
  obtain ⟨_, _, _, _, _, eq⟩ := trySendCount_eq env s n
  rw [eq]

/-- A pass only takes bytes off the front of the buffer and adds what the user handed over. -/
theorem Step.suffix {c : Conf} {label : Label} (step : Step net env c label res below) :
    res.tcb.sndBuf.flatten <:+ c.tcb.sndBuf.flatten ++ label.accepted c.tcb := by
  cases step with
  | event _ handled =>
    cases handled with
    | deliver _ none pass =>
      rw [pass.held.buf, Label.accepted, none, List.append_nil]
    | connReq _ control =>
      rw [control.buf rfl]
      simp [Label.accepted, Event.accepted, openBlock]
    | accept _ control =>
      rw [control.buf rfl]
      simp [Label.accepted, Event.accepted, acceptBlock, tcpNegotiateMss]
    | dataReq state _ fits pass =>
      have taken : Event.accepted c.tcb (.dataReq _) = _ := if_pos ⟨state, fits⟩
      rw [pass.buf, appendBuf_eq, Label.accepted, taken, List.flatten_append]
    | ordrelReq _ _ control =>
      rw [control.buf rfl]
      simp [Label.accepted, Event.accepted]
  | arrive arrived =>
    rw [Label.accepted, List.append_nil]
    cases arrived with
    | quiet idle => rw [Res.ret, idle.buf]
    | taken _ _ settled pass =>
      rw [pass.buf]
      exact settled.suffix
  | resume _ resumed =>
    rw [Label.accepted, List.append_nil]
    cases resumed with
    | deliver _ pass => rw [pass.held.buf]
    | finAck => exact List.suffix_rfl
    | trySend pass => rw [pass.buf, Tcb.setInSend_sndBuf, trySendCount_buf]

theorem Step.payload {c : Conf} {label : Label} (step : Step net env c label res below)
    (sent : res.sent = some (seg, frame)) : seg.payload <:+: res.tcb.sndBuf.flatten := by
  have control {s : Tcb} {flags : Flags} (control : Control net env s flags res) :
      seg.payload <:+: res.tcb.sndBuf.flatten := by
    rw [control.payload sent]
    exact List.nil_infix
  cases step with
  | event _ handled =>
    cases handled with
    | deliver _ _ pass => exact (Pass.deliver pass).payload sent
    | connReq _ syn | accept _ syn => exact control syn
    | dataReq _ _ _ pass => exact pass.payload sent
    | ordrelReq _ _ fin => exact control fin
  | arrive arrived =>
    cases arrived with
    | quiet => cases sent
    | taken _ _ _ pass => exact pass.payload sent
  | resume _ resumed =>
    cases resumed with
    | deliver _ pass => exact (Pass.deliver pass).payload sent
    | finAck => cases sent
    | trySend pass => exact pass.payload sent

end Buffer

section Reuse

variable {net : Interfaces} {h : Host}

-- A connection starts on a block whose send buffer is empty.
def cleanStart (c : Conf) (_ : Env) (label : Label) : Prop := label.starts c.tcb = true → c.tcb.sndBuf = []

instance (c : Conf) (env : Env) (label : Label) : Decidable (cleanStart c env label) :=
  inferInstanceAs (Decidable (_ → _))

/-- Buffer and emissions carry only bytes accepted for this connection. -/
structure OwnBytes (h : Host) : Prop where
  buf : h.conf.tcb.sndBuf.flatten <:+ h.accepted
  out : ∀ seg ∈ h.out, seg.payload <:+: h.accepted

theorem HostReach.reach (reached : HostReach net ok h) : Reach net ok h.conf := by
  induction reached with
  | start => exact .start
  | next _ ok ran ih => exact .next ih ok ran

theorem HostReach.ownBytes (reached : HostReach net cleanStart h) : OwnBytes h := by
  induction reached with
  | start => exact ⟨List.nil_suffix, fun _ member => by cases member⟩
  | @next h env label res below reached ok ran ih =>
    have step := pass_step reached.reach.shape ran
    -- The history this pass goes on with covers what the last one left.
    have kept : h.conf.tcb.sndBuf.flatten <:+ if label.starts h.conf.tcb then [] else h.accepted := by
      split
      next begins => rw [ok begins]; exact List.nil_suffix
      · exact ih.buf
    have sent : ∀ seg ∈ (if label.starts h.conf.tcb then [] else h.out), seg.payload <:+:
        if label.starts h.conf.tcb then [] else h.accepted := by
      split
      · exact fun _ member => by cases member
      · exact ih.out
    have buf : res.tcb.sndBuf.flatten <:+ (h.after label res below).accepted := by
      obtain ⟨front, eq⟩ := kept
      refine step.suffix.trans ⟨front, ?_⟩
      rw [← List.append_assoc, eq]
      rfl
    refine ⟨buf, fun seg member => ?_⟩
    rcases List.mem_append.mp member with older | newest
    · exact (sent seg older).trans (List.prefix_append _ _).isInfix
    · obtain ⟨frame, emitted⟩ := mem_segments newest
      exact (step.payload emitted).trans buf.isInfix

/-- In a run whose connections start on empty send buffers, every segment emitted since the last start
carries a stretch of the bytes accepted since then. -/
theorem emitted_bytes_of_connection (net : Interfaces) (h : Host) (reached : HostReach net cleanStart h) :
    ∀ seg ∈ h.out, seg.payload <:+: h.accepted :=
  reached.ownBytes.out

def reaccept : List (Env × Label) := openLan ++
  [(.calm 3#32, .event (.dataReq ⟨[[1#8]], one_small⟩)),
   (.calm 3#32, .resume),
   (.calm 4#32, .arrive (fromLan flagRst 100#32 0#32 [])),
   (.calm 5#32, .event (.accept 7#16 ⟨0x0a000003#32, 81#16, 1460#16, 299#32, 0, false⟩ 500#32)),
   (.calm 5#32, .resume)]

/-- The byte of the first connection is acknowledged, the second one sends another. -/
theorem emitted_bytes_of_connection_acked :
    let steps := openLan ++ [(.calm 3#32, .event (.dataReq ⟨[[1#8]], one_small⟩)), (.calm 3#32, .resume),
      (.calm 3#32, .arrive (fromLan flagAck 100#32 2#32 []))] ++ reaccept.drop 5 ++
      [(.calm 6#32, .arrive { fromLan flagAck 300#32 501#32 [] with srcIp := 0x0a000003#32, srcPort := 81#16 }),
       (.calm 6#32, .event (.dataReq ⟨[[2#8]], one_small⟩)), (.calm 6#32, .resume)]
    (Host.opened.run lan steps).out.map (·.payload) = [[], [2#8]] ∧ (Host.opened.run lan steps).accepted = [2#8] ∧
      ∀ seg ∈ (Host.opened.run lan steps).out, seg.payload <:+: (Host.opened.run lan steps).accepted :=
  ⟨by decide +kernel, by decide +kernel, emitted_bytes_of_connection lan _ (.run _ .start (by decide +kernel))⟩

/-- The timer of the second connection sends the byte of the first one to the new peer. -/
theorem stale_byte_reaches_next_peer : ∃ h, HostReach lan (fun _ _ _ => True) h ∧
    ∃ seg ∈ h.out, seg.dstIp = h.conf.tcb.remoteIp ∧ seg.dstPort = h.conf.tcb.remotePort ∧
      ¬ seg.payload <:+: h.accepted := by
  let steps := reaccept ++ [(Env.calm 300#32, Label.event (.tick 300#32))]
  refine ⟨Host.opened.run lan steps, .run steps .start (by decide +kernel), ?_⟩
  have last : ∃ seg ∈ (Host.opened.run lan steps).out, seg.dstIp = (Host.opened.run lan steps).conf.tcb.remoteIp ∧
      seg.dstPort = (Host.opened.run lan steps).conf.tcb.remotePort ∧ seg.payload = [1#8] := by decide +kernel
  have nothing : (Host.opened.run lan steps).accepted = [] := by decide +kernel
  obtain ⟨seg, member, ip, port, payload⟩ := last
  refine ⟨seg, member, ip, port, ?_⟩
  rw [payload, nothing]
  exact fun inside => by simp at inside

end Reuse

end Kappara.Tcp
