import Kappara.Tcp.Opening

/-! One direction between two hosts that carry a connection.

A pass of the sending host leaves the receiver as it is, a pass of the
receiving host the sender; the two halves meet only in the segments that have
been emitted. -/

set_option autoImplicit false

namespace Kappara.Tcp

open BlockChain Net Serial
open List (append_nil length_append mem_append_left nil_prefix prefix_append)

variable {seg : Segment} {s' : Tcb}

section Sends

variable {net : Interfaces} {env : Env} {base : Word} {stream : List Byte} {got : Nat} {out : List Segment}
  {s : Tcb} {below : List Frame} {a n : Nat} {res : Res} {c : Conf} {label : Label}

theorem Sender.pop {frame : Frame} (inv : Sender base stream got out ⟨s, frame :: below⟩ a n)
    (notLoop : frame.looping = false) : Sender base stream got out ⟨s, below⟩ a n :=
  { inv with room := gathered_push frame below notLoop ▸ inv.room }

theorem Sender.settle (inv : Sender base stream got out ⟨s, below⟩ a n)
    (settled : Settle net env s seg s') (all : got ≤ stream.length) (small : stream.length < 2 ^ 31)
    (acks : seg.flags.ack = true → ∃ k, k ≤ got ∧ seg.ack = pos base k) :
    (∃ a', Sender base stream got out ⟨s', below⟩ a' n) ∧ s'.state.mode ≠ .dead := by
  have window := (trackWindow_idle s seg).toHeld
  cases settled with
  | idle mode idle same =>
    refine ⟨⟨a, inv.held idle.toHeld⟩, ?_⟩
    rw [same]
    rcases mode with mode | mode <;> simp [mode]
  | ack connected _ flag newer =>
    obtain ⟨k, known, place⟩ := acks flag
    have acked := ackAdvance_acked env (trackWindow s seg) seg.ack
    have mode := mode_connected connected
    rw [place] at acked ⊢
    refine ⟨⟨k, (inv.held window).ack acked mode known all small ?_⟩, ?_⟩
    · rw [← place]
      exact of_decide_eq_true newer
    · rw [acked.state, show (trackWindow s seg).state = s.state from rfl]
      rcases mode with mode | mode <;> simp [mode]
  | connect state | establish state =>
    have mode := inv.mode
    simp [state, TcpState.mode] at mode

theorem Step.sender (step : Step net env c label res below) (shape : Shape c) (window : c.tcb.sndWnd.toNat < 2 ^ 30)
    (inv : Sender base stream got out c a n) (plain : label.starts c.tcb = false) (all : got ≤ stream.length)
    (small : (stream ++ label.accepted c.tcb).length < 2 ^ 31) (sent : ∀ seg ∈ out, Carries base stream got seg)
    (acks : ∀ seg, label = .arrive seg → seg.flags.ack = true → ∃ k, k ≤ got ∧ seg.ack = pos base k)
    (clean : label = .event .ordrelReq → c.tcb.state.mode = .sending → AllSent c.tcb) :
    (∃ a' n', Sender base (stream ++ label.accepted c.tcb) got (out ++ res.segments) (res.conf below) a' n') ∧
      ∀ seg ∈ res.segments, SentOk base (stream ++ label.accepted c.tcb) got res.tcb.state.mode seg := by
  obtain ⟨s, stack⟩ := c
  have short : stream.length < 2 ^ 31 := by
    rw [length_append] at small
    omega
  cases step with
  | event empty handled =>
    cases empty
    cases handled with
    | deliver _ none pass =>
      obtain ⟨inv', ok⟩ := pass.sender inv
      rw [Label.accepted, show Event.accepted s _ = [] from none, append_nil]
      exact ⟨⟨a, n, inv'⟩, ok⟩
    | connReq start | accept start =>
      exact absurd plain (by simp [Label.starts, Event.starts, show s.state = _ from start])
    | @dataReq payload _ open_ carries fits pass =>
      have mode : s.state.mode = .sending := by rw [show s.state = _ from open_]; rfl
      have taken : Label.accepted s (.event (.dataReq payload)) = payload.chain.flatten := if_pos ⟨open_, fits⟩
      have appended := inv.append payload.chain mode shape.idle carries all sent
      rw [taken] at small ⊢
      have same := appendBuf_eq s payload.chain
      obtain ⟨inv', ok⟩ := pass.sender appended (shape_empty (by rw [same]; exact shape.idle))
        (by rw [same]; exact window) small (by rw [same]; simp [mode])
      exact ⟨⟨a, n, inv'⟩, ok⟩
    | ordrelReq mode ended control =>
      obtain ⟨⟨n', inv'⟩, ok⟩ := inv.close control mode shape.idle ended (clean rfl mode) short
      rw [show Label.accepted s (.event .ordrelReq) = [] from rfl, append_nil]
      exact ⟨⟨a, n', inv'⟩, ok⟩
  | arrive arrived =>
    rw [Label.accepted, append_nil]
    cases arrived with
    | quiet idle =>
      rw [Res.ret, Res.segments, Option.map_none, Option.toList_none, append_nil]
      exact ⟨⟨a, n, inv.held idle.toHeld⟩, fun _ member => (by cases member)⟩
    | taken _ _ settled pass =>
      obtain ⟨⟨a', inv'⟩, alive⟩ := inv.settle settled all short (acks _ rfl)
      obtain ⟨inv'', ok⟩ := pass.sender inv' (settled.shape shape) (settled.window window) short
        fun dead => absurd dead alive
      exact ⟨⟨a', n, inv''⟩, ok⟩
  | resume top resumed =>
    cases top
    rw [Label.accepted, append_nil]
    cases resumed with
    | deliver kind pass =>
      obtain ⟨inv', ok⟩ := pass.sender (inv.pop (not_looping kind))
      exact ⟨⟨a, n, inv'⟩, ok⟩
    | finAck =>
      rw [Res.ret, Res.segments, Option.map_none, Option.toList_none, append_nil]
      exact ⟨⟨a, n, inv.pop rfl⟩, fun _ member => (by cases member)⟩
    | @trySend k after _ pass =>
      have room : n + (k + gathered below) ≤ stream.length := inv.room (.inr shape.busy.1)
      obtain ⟨_, _, _, _, _, eq⟩ := trySendCount_eq env s k
      obtain ⟨inv', ok⟩ := pass.sender (inv.count env shape) (shape.popLoop env) (by rw [eq]; exact window) short
        fun _ => by omega
      exact ⟨⟨a, n + k, inv'⟩, ok⟩

end Sends

section Directions

def Host.base (h : Host) : Word := h.conf.tcb.sndIss + 1#32

def Host.delivered (h : Host) : List Byte := bytes h.ups

section

variable (x y : Host)

-- A receiver that is not synchronised and has acknowledged nothing.
structure Mute : Prop where
  unopened : Unopened y.conf
  mode : y.conf.tcb.state.mode ≠ .synReceived
  pending : y.conf.tcb.pendingFlags.ack = false
  delivered : y.delivered = []
  out : ∀ seg ∈ y.out, seg.flags.ack = false

-- A sender whose SYN is not acknowledged; every SYN it sent has its initial number.
structure Silent : Prop where
  unopened : Unopened x.conf
  accepted : x.accepted = []
  pending : x.conf.tcb.pendingFlags.fin = false
  unstarted : x.started = false → x.conf.tcb.pendingFlags.syn = false
  una : x.started = true → x.conf.tcb.sndUna = x.conf.tcb.sndIss
  nxt : x.started = true → x.conf.tcb.sndNxt = x.conf.tcb.sndIss ∨ x.conf.tcb.sndNxt = x.base
  bare : ∀ seg ∈ x.out, seg.payload = [] ∧ seg.flags.fin = false
  syn : ∀ seg ∈ x.out, seg.flags.syn = true → x.started = true ∧ seg.seq = x.conf.tcb.sndIss

inductive Half : Prop where
  | silent : Silent x → Half
  | opened {a n : Nat} : x.started = true → (∃ seg ∈ y.out, seg.flags.ack = true) →
      Sender x.base x.accepted y.delivered.length x.out x.conf a n → Half

-- The bytes from x to y, as long as y has not taken a FIN of x.
structure Dir : Prop where
  small : x.accepted.length < 2 ^ 31
  got : y.delivered <+: x.accepted
  recv : Mute y ∨ (x.started = true ∧ y.conf.tcb.state.mode ≠ .synSent ∧
    y.conf.tcb.rcvNxt = pos x.base y.delivered.length)
  acks : ∀ seg ∈ y.out, seg.flags.ack = true → ∃ k, k ≤ y.delivered.length ∧ seg.ack = pos x.base k
  out : ∀ seg ∈ x.out, SentOk x.base x.accepted y.delivered.length x.conf.tcb.state.mode seg
  frames : ∀ frame ∈ y.conf.stack, ∀ seg, frame.cur = some seg → seg ∈ x.out
  untold : Ind.ordrelInd ∉ y.ups
  untaken : Frame.finAck ∉ y.conf.stack
  half : Half x y

-- What a host may do next to its peer: segments come from the peer, a connection starts once and an
-- accepted one stems from a SYN of the peer, and the stream stays below half the sequence space.
def genuine : Label → Prop
  | .arrive seg => seg ∈ y.out
  | .event (.connReq _ _ _) => x.conf.tcb.state = .bound → x.started = false
  | .event (.accept lport entry _) => x.conf.tcb.state = .closed → x.started = false ∧ ∃ seg ∈ y.out,
      seg.flags.syn = true ∧ entry.irs = seg.seq ∧ entry.remoteIp = seg.srcIp ∧ entry.remotePort = seg.srcPort ∧
        lport = seg.dstPort
  | _ => True

structure Allowed (env : Env) (label : Label) : Prop where
  alloc : ∀ site, env.alloc site = true
  genuine : genuine x y label
  small : (x.accepted ++ label.accepted x.conf.tcb).length < 2 ^ 31

end

variable {net : Interfaces} {env : Env} {res : Res} {below : List Frame} {x y : Host} {label : Label} {s : Tcb}
  {base : Word} {stream : List Byte}

theorem Blank.mute (blank : Blank y) : Mute y := by
  refine ⟨blank.unopened, ?_, ?_, bytes_plain blank.plain, fun seg member => ?_⟩
  · rw [blank.mode]
    exact fun same => (by cases same)
  · rw [blank.pending]
    rfl
  · rw [(blank.out seg member).1]
    rfl

theorem Allowed.unstarted (allowed : Allowed x y env label) (starts : label.starts x.conf.tcb = true) :
    x.started = false := by
  cases label with
  | event e =>
    cases e with
    | connReq ip port iss => exact allowed.genuine (of_decide_eq_true starts)
    | accept lport entry iss => exact (allowed.genuine (of_decide_eq_true starts)).1
    | _ => cases starts
  | _ => cases starts

theorem Mute.next (mute : Mute y) (step : Step net env y.conf label res below) (murmur : Murmur y.conf.tcb res)
    (plain : label.starts y.conf.tcb = false) : Mute (y.after label res below) := by
  rw [Host.after_plain plain]
  refine ⟨murmur.unopened step mute.unopened, ?_, ?_, ?_, fun seg member => ?_⟩
  · show res.tcb.state.mode ≠ .synReceived
    rcases murmur.idle.mode with same | dead
    · rw [same]
      exact mute.mode
    · rw [dead]
      exact fun same => (by cases same)
  · show res.tcb.pendingFlags.ack = false
    rw [murmur.idle.pending]
    exact mute.pending
  · show bytes (y.ups ++ res.ups) = []
    rw [bytes_append, bytes_plain murmur.plain, append_nil]
    exact mute.delivered
  · rcases List.mem_append.mp member with older | newest
    · exact mute.out seg older
    · rcases (murmur.sent seg newest).2 with ⟨flags, -⟩ | reset
      · rw [flags]
        exact mute.pending
      · rw [reset]
        rfl

theorem Silent.next (silent : Silent x) (step : Step net env x.conf label res below) (murmur : Murmur x.conf.tcb res)
    (plain : label.starts x.conf.tcb = false) : Silent (x.after label res below) := by
  have idle := murmur.idle
  rw [Host.after_plain plain]
  refine ⟨murmur.unopened step silent.unopened, ?_, ?_, ?_, ?_, ?_, ?_, ?_⟩
  · rw [silent.accepted, accepted_of_closed silent.unopened.not_sending, append_nil]
  · show res.tcb.pendingFlags.fin = false
    rw [idle.pending]
    exact silent.pending
  · show x.started = false → res.tcb.pendingFlags.syn = false
    rw [idle.pending]
    exact silent.unstarted
  · show x.started = true → res.tcb.sndUna = res.tcb.sndIss
    rw [idle.una, idle.iss]
    exact silent.una
  · show x.started = true → res.tcb.sndNxt = res.tcb.sndIss ∨ res.tcb.sndNxt = res.tcb.sndIss + 1#32
    rw [idle.nxt, idle.iss]
    exact silent.nxt
  · intro seg member
    rcases List.mem_append.mp member with older | newest
    · exact silent.bare seg older
    · obtain ⟨empty, ⟨flags, -⟩ | reset⟩ := murmur.sent seg newest
      · exact ⟨empty, by rw [flags]; exact silent.pending⟩
      · exact ⟨empty, by rw [reset]; rfl⟩
  · intro seg member syn
    show x.started = true ∧ seg.seq = res.tcb.sndIss
    rw [idle.iss]
    rcases List.mem_append.mp member with older | newest
    · exact silent.syn seg older syn
    · rcases (murmur.sent seg newest).2 with ⟨flags, seq, -⟩ | reset
      · have started : x.started = true := by
          by_contra never
          rw [flags, silent.unstarted (by simpa using never)] at syn
          cases syn
        exact ⟨started, seq.trans (silent.una started)⟩
      · rw [reset] at syn
        cases syn

theorem Host.after_start (starts : label.starts x.conf.tcb = true) : x.after label res below =
    ⟨res.conf below, true, label.accepted x.conf.tcb, res.ups, res.segments⟩ := by
  simp [Host.after, starts]

theorem Silent.carries {got : Nat} {mode : Mode} (silent : Silent x) (member : seg ∈ x.out) :
    SentOk base stream got mode seg := by
  obtain ⟨empty, fin⟩ := silent.bare seg member
  refine ⟨.of_empty empty, fun flag => ?_⟩
  rw [fin] at flag
  cases flag

/-- Before x has an acknowledgement and y is synchronised, nothing can have gone wrong. -/
theorem Dir.of_silent (silent : Silent x) (mute : Mute y) (untold : Ind.ordrelInd ∉ y.ups) : Dir x y where
  small := by
    rw [silent.accepted]
    exact Nat.two_pow_pos 31
  got := by
    rw [mute.delivered]
    exact nil_prefix
  recv := .inl mute
  acks seg member flag := by
    rw [mute.out seg member] at flag
    cases flag
  out _ := silent.carries
  frames frame member seg cur := by
    rw [(mute.unopened.stack frame member).1] at cur
    cases cur
  untold := untold
  untaken member := (mute.unopened.stack _ member).2 rfl
  half := .silent silent

/-- A connection that starts is silent, whether or not its SYN went out. -/
theorem Control.silent {flags : Flags} (control : Control net env s flags res) (syn : flags.syn = true)
    (fin : flags.fin = false) (mode : s.state.mode = .synSent ∨ s.state.mode = .synReceived) (buf : s.sndBuf = [])
    (idle : s.inSend = false) (una : s.sndUna = s.sndIss) (nxt : s.sndNxt = s.sndIss)
    (pending : s.pendingFlags.fin = false) : Silent ⟨res.conf [], true, [], res.ups, res.segments⟩ := by
  have one : flags.syn = !flags.fin := by rw [syn, fin]; rfl
  cases control with
  | skipped =>
    refine ⟨⟨.inr mode, buf, idle, fun _ member => (by cases member)⟩, rfl, pending, fun never => (by cases never),
      fun _ => una, fun _ => .inl nxt, fun _ member => (by cases member), fun _ member => (by cases member)⟩
  | counted taken =>
    have counted := countSegment_counted env s flags one
    have mode' : (countSegment env s flags []).state.mode = .synSent ∨
        (countSegment env s flags []).state.mode = .synReceived := by rwa [counted.state]
    have pending' : (countSegment env s flags []).pendingFlags.fin = false := by rwa [counted.pending]
    have una' : (countSegment env s flags []).sndUna = (countSegment env s flags []).sndIss := by
      rw [counted.una, counted.iss, una]
    have nxt' : (countSegment env s flags []).sndNxt = (countSegment env s flags []).sndIss + 1#32 := by
      rw [counted.nxt, counted.iss, nxt]
    rcases taken with rfl | rfl
    · refine ⟨⟨.inr mode', counted.buf.trans buf, counted.inSend.trans idle, fun _ member => (by cases member)⟩, rfl,
        pending', fun never => (by cases never), fun _ => una', fun _ => .inr nxt', fun _ member => (by cases member),
        fun _ member => (by cases member)⟩
    · refine ⟨⟨.inr mode', counted.buf.trans buf, counted.inSend.trans idle, fun frame member => ?_⟩, rfl,
        pending', fun never => (by cases never), fun _ => una', fun _ => .inr nxt', fun seg member => ?_,
        fun seg member _ => ?_⟩
      · rw [List.mem_singleton.mp member]
        exact ⟨rfl, fun same => (by cases same)⟩
      · rw [List.mem_singleton.mp member]
        exact ⟨rfl, fin⟩
      · rw [List.mem_singleton.mp member]
        exact ⟨rfl, nxt.trans counted.iss.symm⟩

section Controls

variable {s : Tcb} {flags : Flags} (control : Control net env s flags res)

include control

theorem Control.ups : res.ups = [] := by
  cases control <;> rfl

theorem Control.state (one : flags.syn = !flags.fin) : res.tcb.state = s.state := by
  cases control with
  | skipped => rfl
  | counted => exact (countSegment_counted env s flags one).state

theorem Control.rcv (one : flags.syn = !flags.fin) : res.tcb.rcvNxt = s.rcvNxt := by
  cases control with
  | skipped => rfl
  | counted => exact (countSegment_counted env s flags one).rcv

theorem Control.pending (one : flags.syn = !flags.fin) :
    res.tcb.pendingFlags = s.pendingFlags ∨ res.tcb.pendingFlags = flags := by
  cases control with
  | skipped => exact .inl rfl
  | counted => exact .inr (countSegment_counted env s flags one).pending

theorem Control.segment (member : seg ∈ res.segments) : seg = buildSegment net env s s.sndNxt flags [] := by
  cases control with
  | skipped => cases member
  | counted taken =>
    rcases taken with rfl | rfl
    · cases member
    · exact List.mem_singleton.mp member

theorem Control.frame {frame : Frame} (member : frame ∈ (res.conf []).stack) : frame = .ret := by
  cases control with
  | skipped => cases member
  | counted taken =>
    rcases taken with rfl | rfl
    · cases member
    · exact List.mem_singleton.mp member

end Controls

theorem Dir.sends_start (dir : Dir x y) (sound : Sound x) (allowed : Allowed x y env label)
    (step : Step net env x.conf label res below) (starts : label.starts x.conf.tcb = true) :
    Dir (x.after label res below) y := by
  have never := allowed.unstarted starts
  have blank := sound.blank never
  have mute : Mute y := dir.recv.resolve_right fun synced => by rw [never] at synced; cases synced.1
  have pending : x.conf.tcb.pendingFlags.fin = false := by rw [blank.pending]; rfl
  rw [Host.after_start starts]
  cases step with
  | arrive | resume => cases starts
  | event _ handled =>
    refine .of_silent ?_ mute dir.untold
    cases handled with
    | deliver plain =>
      rw [Label.starts, plain] at starts
      cases starts
    | dataReq | ordrelReq => cases starts
    | connReq _ control =>
      exact control.silent rfl rfl (.inl rfl) blank.unopened.buf blank.unopened.idle rfl rfl pending
    | accept _ control =>
      exact control.silent rfl rfl (.inr rfl) blank.unopened.buf blank.unopened.idle rfl rfl pending

theorem Step.kept {c : Conf} (step : Step net env c label res below) (plain : label.starts c.tcb = false) :
    Kept c.tcb res.tcb := by
  cases step with
  | event _ handled =>
    cases handled with
    | deliver _ _ pass => exact pass.held.kept
    | connReq start | accept start => exact absurd plain (by simp [Label.starts, Event.starts, start])
    | dataReq _ _ _ pass =>
      have kept := pass.kept
      rw [appendBuf_eq] at kept
      exact ⟨kept.iss, kept.final, kept.synced⟩
    | @ordrelReq state _ mode ended control =>
      cases control with
      | skipped => exact ⟨rfl, fun _ => .inl ended, fun _ => by simp [ended]⟩
      | counted =>
        have counted := countSegment_counted env (c.tcb.setState state) flagAckFin rfl
        refine ⟨counted.iss, fun _ => .inl ?_, fun _ => ?_⟩ <;> simp [counted.state, ended]
  | arrive arrived => exact arrived.kept
  | resume _ resumed =>
    cases resumed with
    | deliver _ pass => exact pass.held.kept
    | finAck => exact ⟨rfl, id, id⟩
    | trySend pass => exact (trySendCount_kept env c.tcb _).trans pass.kept

theorem Carries.append {more : List Byte} {got : Nat} (carries : Carries base stream got seg) :
    Carries base (stream ++ more) got seg := by
  intro nonempty
  obtain ⟨o, seq, place⟩ := carries nonempty
  refine ⟨o, seq, place.imp_left fun ⟨fits, front⟩ => ?_⟩
  rw [length_append, List.drop_append_of_le_length (by omega)]
  exact ⟨by omega, front.trans (prefix_append _ _)⟩

/-- A block that has sent a FIN accepts nothing more, so its place stays the end of the stream. -/
theorem SentOk.grow {got : Nat} (ok : SentOk base stream got s.state.mode seg) (kept : Kept s s') (label : Label) :
    SentOk base (stream ++ label.accepted s) got s'.state.mode seg := by
  refine ⟨ok.carries.append, fun flag => ?_⟩
  obtain ⟨bare, seq, mode⟩ := ok.fin flag
  have none : label.accepted s = [] := accepted_of_closed (by rcases mode with mode | mode <;> simp [mode])
  rw [none, append_nil]
  exact ⟨bare, seq, kept.final mode⟩

/-- The send half has moved on while the receiver stood still. -/
theorem Dir.sent {a n : Nat} (dir : Dir x y) (plain : label.starts x.conf.tcb = false) (kept : Kept x.conf.tcb res.tcb)
    (small : (x.accepted ++ label.accepted x.conf.tcb).length < 2 ^ 31) (started : x.started = true)
    (answered : ∃ seg ∈ y.out, seg.flags.ack = true)
    (half : Sender x.base (x.accepted ++ label.accepted x.conf.tcb) y.delivered.length (x.out ++ res.segments)
      (res.conf below) a n)
    (fresh : ∀ seg ∈ res.segments, SentOk x.base (x.accepted ++ label.accepted x.conf.tcb) y.delivered.length
      res.tcb.state.mode seg) : Dir (x.after label res below) y := by
  have same : Host.base ⟨res.conf below, x.started, x.accepted ++ label.accepted x.conf.tcb, x.ups ++ res.ups,
      x.out ++ res.segments⟩ = x.base := congrArg (· + 1#32) kept.iss
  rw [Host.after_plain plain]
  refine ⟨small, dir.got.trans (prefix_append _ _), ?_, ?_, ?_, ?_, dir.untold, dir.untaken, ?_⟩
  · rw [same]
    exact dir.recv
  · rw [same]
    exact dir.acks
  · rw [same]
    intro seg member
    rcases List.mem_append.mp member with older | newest
    · exact (dir.out seg older).grow kept label
    · exact fresh seg newest
  · intro frame member seg cur
    exact mem_append_left _ (dir.frames frame member seg cur)
  · exact .opened started answered (same ▸ half)

theorem Sound.started (sound : Sound x) (alive : x.conf.tcb.state.mode ≠ .dead) : x.started = true := by
  by_contra never
  exact alive (sound.blank (by simpa using never)).mode

/-- A silent sender keeps its books; its segments carry no data. -/
theorem Dir.murmured (dir : Dir x y) (plain : label.starts x.conf.tcb = false)
    (silent : Silent (x.after label res below))
    (iss : res.tcb.sndIss = x.conf.tcb.sndIss) : Dir (x.after label res below) y := by
  have same : (x.after label res below).base = x.base := congrArg (· + 1#32) iss
  have began : (x.after label res below).started = x.started := by rw [Host.after_plain plain]
  have grown : (x.after label res below).out = x.out ++ res.segments := by rw [Host.after_plain plain]
  have accepted : (x.after label res below).accepted = x.accepted ++ label.accepted x.conf.tcb := by
    rw [Host.after_plain plain]
  refine ⟨?_, ?_, ?_, ?_, fun _ => silent.carries, fun frame member seg cur => ?_, dir.untold, dir.untaken,
    .silent silent⟩
  · rw [silent.accepted]
    exact Nat.two_pow_pos 31
  · rw [accepted]
    exact dir.got.trans (prefix_append _ _)
  · rw [same, began]
    exact dir.recv
  · rw [same]
    exact dir.acks
  · rw [grown]
    exact mem_append_left _ (dir.frames frame member seg cur)

/-- The handshake completes: both places are 0. -/
theorem Opened.sender {rcv : Word} {out : List Segment} (opened : Opened s seg rcv s') (covers : seg.ack = s.sndNxt)
    (place : seg.ack = base) (buf : s.sndBuf = []) (none : gathered below = 0) (pending : s.pendingFlags.fin = false) :
    Sender base [] 0 out ⟨s', below⟩ 0 0 := by
  have empty : s'.sndBuf = [] := opened.buf.trans buf
  refine ⟨?_, ?_, Nat.le_refl 0, .inl ?_, fun _ => ?_, ?_, fun _ => rfl, ?_, ?_, ?_⟩
  · rw [pos_zero, ← place]
    exact opened.una
  · rw [pos_zero, ← place, covers]
    exact opened.nxt
  · rw [opened.state]
    rfl
  · rw [none]
    exact Nat.le_refl 0
  · rw [empty]
    rfl
  · exact fun some => absurd empty some
  · exact fun some => absurd empty some
  · rw [opened.pending, pending]
    exact fun fin => (by cases fin)

theorem Silent.settle (silent : Silent x) (shape : Shape x.conf)
    (settled : Settle net env x.conf.tcb seg s') (place : seg.flags.ack = true → seg.ack = x.base) :
    Sender x.base [] 0 x.out ⟨s', x.conf.stack⟩ 0 0 ∧ s'.state.mode = .sending ∧ seg.flags.ack = true := by
  have none : gathered x.conf.stack = 0 := gathered_of_loops (by rw [shape.loop, silent.unopened.idle]; rfl)
  have mode := silent.unopened.mode
  cases settled with
  | idle open_ => rcases open_ with open_ | open_ <;> simp [open_] at mode
  | ack connected => rcases mode_connected connected with open_ | open_ <;> simp [open_] at mode
  | connect _ _ flag covers =>
    have opened := connectBlock_opened net env (trackWindow x.conf.tcb seg) seg
    refine ⟨opened.sender covers (place flag) silent.unopened.buf none silent.pending, ?_, flag⟩
    rfl
  | establish _ flag covers =>
    have opened := establishBlock_opened env (trackWindow x.conf.tcb seg) seg
    refine ⟨opened.sender covers (place flag) silent.unopened.buf none silent.pending, ?_, flag⟩
    rfl

theorem Dir.sends (dir : Dir x y) (sound : Sound x) (allowed : Allowed x y env label)
    (clean : label = .event .ordrelReq → x.conf.tcb.state.mode = .sending → AllSent x.conf.tcb)
    (step : Step net env x.conf label res below) : Dir (x.after label res below) y := by
  cases starts : label.starts x.conf.tcb with
  | true => exact dir.sends_start sound allowed step starts
  | false =>
    have kept := step.kept starts
    have from_peer (seg : Segment) (arrives : label = .arrive seg) : seg ∈ y.out := by
      rw [arrives] at allowed
      exact allowed.genuine
    cases dir.half with
    | opened started answered half =>
      obtain ⟨⟨a', n', half'⟩, fresh⟩ :=
        step.sender sound.shape sound.window half starts dir.got.length_le allowed.small
        (fun seg member => (dir.out seg member).carries) (fun seg arrives => dir.acks seg (from_peer seg arrives)) clean
      exact dir.sent starts kept allowed.small started answered half' fresh
    | silent silent =>
      have nothing : x.accepted = [] := silent.accepted
      have none : label.accepted x.conf.tcb = [] := accepted_of_closed silent.unopened.not_sending
      have empty : y.delivered = [] := List.prefix_nil.mp (nothing ▸ dir.got)
      rcases step.murmur sound.shape silent.unopened starts with murmur | ⟨seg, s', arrives, rfl, settled, pass⟩
      · exact dir.murmured starts (silent.next step murmur starts) kept.iss
      · have started := sound.started settled.mode
        have zero : ([] : List Byte).length < 2 ^ 31 := Nat.two_pow_pos 31
        have place (flag : seg.flags.ack = true) : seg.ack = x.base := by
          obtain ⟨k, bound, at_k⟩ := dir.acks seg (from_peer seg arrives) flag
          rw [empty, List.length_nil, Nat.le_zero] at bound
          rw [at_k, bound, pos_zero]
        obtain ⟨half, mode, flag⟩ := silent.settle sound.shape settled place
        obtain ⟨half', fresh⟩ := pass.sender half (settled.shape sound.shape) (settled.window sound.window)
          zero fun dead => by rw [mode] at dead; cases dead
        refine dir.sent starts kept allowed.small started ⟨seg, from_peer seg arrives, flag⟩ ?_ ?_ (a := 0) (n := 0)
        · rw [nothing, none, empty]
          exact half'
        · rw [nothing, none, empty]
          exact fresh

-- The receiver has taken a FIN of x, with all of the stream before it.
structure Done (x y : Host) : Prop where
  started : x.started = true
  mode : x.conf.tcb.state.mode = .ended ∨ x.conf.tcb.state.mode = .dead
  fin : ∃ seg ∈ x.out, seg.flags.fin = true
  all : x.accepted <+: y.delivered
  told : ∀ pre post, y.ups = pre ++ Ind.ordrelInd :: post → x.accepted <+: bytes pre

/-- Once the stream is delivered, whatever is told later comes after it. -/
theorem told_append {old new : List Ind} (all : stream <+: bytes old)
    (told : ∀ pre post, old = pre ++ Ind.ordrelInd :: post → stream <+: bytes pre) :
    ∀ pre post, old ++ new = pre ++ Ind.ordrelInd :: post → stream <+: bytes pre := by
  intro pre post split
  rcases List.append_eq_append_iff.mp split with ⟨more, rfl, _⟩ | ⟨more, same, rest⟩
  · rw [bytes_append]
    exact all.trans (prefix_append _ _)
  · cases more with
    | nil =>
      rw [append_nil] at same
      exact same ▸ all
    | cons ind more =>
      obtain ⟨rfl, -⟩ := List.cons.inj rest
      exact told pre more same

theorem SentOk.mono {got got' : Nat} {mode : Mode} (ok : SentOk base stream got mode seg) (more : got ≤ got') :
    SentOk base stream got' mode seg :=
  ⟨ok.carries.mono more, ok.fin⟩

theorem Half.hears {y' : Host} (half : Half x y) (out : ∀ seg ∈ y.out, seg ∈ y'.out)
    (more : y.delivered.length ≤ y'.delivered.length)
    (stuck : (∀ seg ∈ x.out, Behind x.base y.delivered.length seg) → y'.delivered.length = y.delivered.length) :
    Half x y' := by
  cases half with
  | silent silent => exact .silent silent
  | @opened a n started answered sender =>
    obtain ⟨seg, member, flag⟩ := answered
    refine .opened started ⟨seg, out seg member, flag⟩ { sender with acked := ?_, start := ?_ }
    · exact Nat.le_trans sender.acked more
    · intro buffered
      refine (sender.start buffered).imp_right fun lag => { lag with stuck := ?_ }
      rw [stuck (lag.stuck ▸ lag.out)]
      exact lag.stuck

/-- What the receiver heard, seen from the whole direction. -/
theorem Dir.heard {cur : Option Segment} (dir : Dir x y) (plain : label.starts y.conf.tcb = false)
    (heard : Heard x.base x.accepted y.delivered cur res) (started : x.started = true)
    (genuine : ∀ seg, cur = some seg → seg ∈ x.out) (older : ∀ frame ∈ below, frame ∈ y.conf.stack)
    (synced : res.tcb.state.mode ≠ .synSent) : Dir x (y.after label res below) ∨ Done x (y.after label res below) := by
  rw [Host.after_plain plain]
  cases heard with
  | more received quiet noOrdrel sent =>
    left
    have total : bytes (y.ups ++ res.ups) = y.delivered ++ bytes res.ups := bytes_append _ _
    have longer : y.delivered.length ≤ (bytes (y.ups ++ res.ups)).length := by
      rw [total, length_append]
      omega
    refine ⟨dir.small, ?_, .inr ⟨started, synced, ?_⟩, fun seg member flag => ?_, fun seg member => ?_,
      fun frame member seg same => ?_, ?_, fun member => ?_, dir.half.hears ?_ longer fun stale => ?_⟩
    · show bytes (y.ups ++ res.ups) <+: x.accepted
      rw [total]
      exact received.delivered
    · exact received.rcv.trans (by rw [← total]; rfl)
    · rcases List.mem_append.mp member with before | newest
      · obtain ⟨k, bound, place⟩ := dir.acks seg before flag
        exact ⟨k, Nat.le_trans bound longer, place⟩
      · obtain ⟨frame, emitted⟩ := mem_segments newest
        refine ⟨_, Nat.le_refl _, ((sent seg frame emitted).1 flag).trans ?_⟩
        exact received.rcv.trans (by rw [← total]; rfl)
    · exact (dir.out seg member).mono longer
    · rcases mem_conf_stack member with ⟨seg', emitted⟩ | before
      · rcases (sent seg' frame emitted).2.1 with none | same'
        · rw [none] at same
          cases same
        · exact genuine seg (same'.symm.trans same)
      · exact dir.frames frame (older frame before) seg same
    · exact fun member => (List.mem_append.mp member).elim dir.untold noOrdrel
    · rcases mem_conf_stack member with ⟨seg', emitted⟩ | before
      · exact (sent seg' _ emitted).2.2 rfl
      · exact dir.untaken (older _ before)
    · exact fun seg member => mem_append_left _ member
    · have nothing := quiet fun seg same => stale seg (genuine seg same)
      show (bytes (y.ups ++ res.ups)).length = _
      rw [total, nothing, append_nil]
  | @finished ups last seg at_hand flag split noOrdrel all =>
    right
    have member := genuine seg at_hand
    have total : bytes (y.ups ++ ups) = y.delivered ++ bytes ups := bytes_append _ _
    refine ⟨started, ((dir.out seg member).fin flag).mode, ⟨seg, member, flag⟩, ?_, ?_⟩
    · show x.accepted <+: bytes (y.ups ++ res.ups)
      rw [split, ← List.append_assoc, bytes_append, total]
      exact all.trans (prefix_append _ _)
    · rw [split, ← List.append_assoc]
      apply told_append
      · rw [total]
        exact all
      · intro pre post inside
        have member : Ind.ordrelInd ∈ y.ups ++ ups := by rw [inside]; simp
        exact absurd member fun member => (List.mem_append.mp member).elim dir.untold noOrdrel

theorem Heard.of_idle {got : List Byte} {ups : List Ind} (inv : Receives base stream got s) (rcv : s'.rcvNxt = s.rcvNxt)
    (plain : ∀ ind ∈ ups, ind.plain = true) {sent : Option (Segment × Frame)}
    (ack : ∀ seg frame, sent = some (seg, frame) → seg.ack = s'.rcvNxt ∧ frame = .ret) :
    Heard base stream got none ⟨s', ups, sent⟩ := by
  refine .more ?_ (fun _ => bytes_plain plain) (fun member => (nomatch plain _ member)) fun seg frame same => ?_
  · rw [bytes_plain plain, append_nil]
    exact ⟨inv.delivered, rcv.trans inv.rcv⟩
  · obtain ⟨number, rfl⟩ := ack seg frame same
    exact ⟨fun _ => number, .inl rfl, fun other => (by cases other)⟩

theorem Settle.rcv (settled : Settle net env s seg s') (synced : s.state.mode ≠ .synSent) : s'.rcvNxt = s.rcvNxt := by
  cases settled with
  | idle _ idle => exact idle.rcv
  | ack => exact (ackAdvance_acked env (trackWindow s seg) seg.ack).rcv
  | connect state => exact absurd (by rw [state]; rfl) synced
  | establish => exact (establishBlock_opened env (trackWindow s seg) seg).rcv

-- The segment a pass looks at: the one that arrives, or the one its frame was waiting with.
def Label.looksAt (c : Conf) : Label → Option Segment
  | .event _ => none
  | .arrive seg => some seg
  | .resume => c.stack.head?.bind Frame.cur

theorem Step.heard {c : Conf} {got : List Byte} {mode : Mode} (step : Step net env c label res below)
    (plain : label.starts c.tcb = false) (alloc : env.alloc .dataInd = true) (small : stream.length < 2 ^ 31)
    (inv : Receives base stream got c.tcb) (synced : c.tcb.state.mode ≠ .synSent)
    (genuine : ∀ seg, label.looksAt c = some seg → SentOk base stream got.length mode seg)
    (untaken : Frame.finAck ∉ c.stack) :
    ∃ cur, (cur = none ∨ cur = label.looksAt c) ∧ Heard base stream got cur res := by
  have nothing (seg : Segment) (none : (none : Option Segment) = some seg) : SentOk base stream got.length mode seg :=
    by cases none
  cases step with
  | event _ handled =>
    refine ⟨none, .inl rfl, ?_⟩
    cases handled with
    | deliver _ _ pass => exact pass.heard alloc small nothing inv
    | connReq start | accept start => exact absurd plain (by simp [Label.starts, Event.starts, start])
    | dataReq _ _ _ pass =>
      rw [appendBuf_eq] at pass
      exact pass.heard alloc small nothing ⟨inv.delivered, inv.rcv⟩
    | @ordrelReq state _ _ _ control =>
      have counted := countSegment_counted env (c.tcb.setState state) flagAckFin rfl
      cases control with
      | skipped =>
        refine .of_idle inv (Tcb.setState_rcvNxt _ _) ?_ ?_
        · exact fun _ member => (by cases member)
        · exact fun _ _ none => (by cases none)
      | counted taken =>
        refine .of_idle inv counted.rcv ?_ fun seg frame same => ?_
        · exact fun _ member => (by cases member)
        rcases taken with rfl | rfl
        · cases same
        · cases same
          exact ⟨counted.rcv.symm, rfl⟩
  | arrive arrived =>
    cases arrived with
    | quiet idle plain =>
      exact ⟨none, .inl rfl, .of_idle inv idle.rcv plain fun _ _ none => (by cases none)⟩
    | taken _ _ settled pass =>
      refine ⟨_, .inr rfl, pass.heard alloc small genuine ⟨inv.delivered, (settled.rcv synced).trans inv.rcv⟩⟩
  | resume top resumed =>
    obtain ⟨s, stack⟩ := c
    cases top
    cases resumed with
    | deliver _ pass => exact ⟨_, .inr rfl, pass.heard alloc small genuine inv⟩
    | finAck => exact absurd List.mem_cons_self untaken
    | @trySend n after _ pass =>
      obtain ⟨_, _, _, _, _, eq⟩ := trySendCount_eq env s n
      rw [eq] at pass
      exact ⟨_, .inr rfl, pass.heard alloc small genuine ⟨inv.delivered, inv.rcv⟩⟩

/-- An unsynchronised receiver means that the sender has no acknowledgement either. -/
theorem Dir.silent_of_mute (dir : Dir x y) (mute : Mute y) : Silent x := by
  cases dir.half with
  | silent silent => exact silent
  | opened _ answered _ =>
    obtain ⟨seg, member, flag⟩ := answered
    rw [mute.out seg member] at flag
    cases flag

section

variable (dir : Dir x y) (sound : Sound y) (allowed : Allowed y x env label)
  (step : Step net env y.conf label res below)
include dir sound allowed step

theorem Dir.hears_start (starts : label.starts y.conf.tcb = true) : Dir x (y.after label res below) := by
  have blank := sound.blank (allowed.unstarted starts)
  have silent := dir.silent_of_mute blank.mute
  rw [Host.after_start starts]
  cases step with
  | arrive | resume => cases starts
  | event _ handled =>
    cases handled with
    | deliver plain =>
      rw [Label.starts, plain] at starts
      cases starts
    | dataReq | ordrelReq => cases starts
    | @connReq ip port iss _ bound control =>
      have pending : y.conf.tcb.pendingFlags = Flags.none := blank.pending
      have unopened := (control.silent rfl rfl (.inl rfl) blank.unopened.buf blank.unopened.idle rfl rfl
        (by rw [show (openBlock y.conf.tcb ip port iss).pendingFlags = _ from pending]; rfl)).unopened
      refine .of_silent silent ⟨unopened, ?_, ?_, ?_, fun seg member => ?_⟩ ?_
      · show res.tcb.state.mode ≠ .synReceived
        rw [control.state rfl]
        exact fun same => (by cases same)
      · rcases control.pending rfl with same | same
        · rw [show (res.conf []).tcb.pendingFlags = _ from same]
          rw [show (openBlock y.conf.tcb ip port iss).pendingFlags = _ from pending]
          rfl
        · rw [show (res.conf []).tcb.pendingFlags = _ from same]
          rfl
      · rw [control.ups]
        rfl
      · rw [control.segment member]
        rfl
      · rw [control.ups]
        exact List.not_mem_nil
    | @accept lport entry iss _ free control =>
      obtain ⟨-, seg, member, syn, irs, -⟩ := allowed.genuine free
      obtain ⟨started, seq⟩ := silent.syn seg member syn
      have none : bytes res.ups = [] := by rw [control.ups]; rfl
      have rcv : res.tcb.rcvNxt = pos x.base 0 := by
        rw [control.rcv rfl, pos_zero]
        show entry.irs + 1#32 = x.base
        rw [irs, seq]
        rfl
      refine ⟨dir.small, ?_, .inr ⟨started, ?_, ?_⟩, fun seg member _ => ⟨0, Nat.zero_le _, ?_⟩,
        fun _ => silent.carries, fun frame member seg same => ?_, ?_, fun member => ?_, .silent silent⟩
      · show bytes res.ups <+: x.accepted
        rw [none]
        exact nil_prefix
      · show res.tcb.state.mode ≠ .synSent
        rw [control.state rfl]
        exact fun same => (by cases same)
      · show res.tcb.rcvNxt = pos x.base (bytes res.ups).length
        rw [none]
        exact rcv
      · rw [control.segment member]
        exact (control.rcv rfl).symm.trans rcv
      · rw [control.frame member] at same
        cases same
      · rw [control.ups]
        exact List.not_mem_nil
      · cases control.frame member

theorem Dir.hears : Dir x (y.after label res below) ∨ Done x (y.after label res below) := by
  cases starts : label.starts y.conf.tcb with
  | true => exact .inl (dir.hears_start sound allowed step starts)
  | false =>
    have kept := step.kept starts
    have from_peer (seg : Segment) (arrives : label = .arrive seg) : seg ∈ x.out := by
      rw [arrives] at allowed
      exact allowed.genuine
    have older := step.below_subset
    rcases dir.recv with mute | ⟨started, synced, rcv⟩
    · have silent := dir.silent_of_mute mute
      rcases step.murmur sound.shape mute.unopened starts with murmur | ⟨seg, s', arrives, rfl, settled, pass⟩
      · left
        refine .of_silent silent (mute.next step murmur starts) ?_
        rw [Host.after_plain starts]
        intro member
        rcases List.mem_append.mp member with before | newest
        · exact dir.untold before
        · cases murmur.plain _ newest
      · -- The SYN-ACK of x: from here on y is synchronised.
        have member := from_peer seg arrives
        have mode := mute.unopened.mode
        cases settled with
        | idle open_ => rcases open_ with open_ | open_ <;> simp [open_] at mode
        | ack connected => rcases mode_connected connected with open_ | open_ <;> simp [open_] at mode
        | establish state => exact absurd (by rw [state]; rfl) mute.mode
        | connect _ syn _ _ =>
          obtain ⟨started, seq⟩ := silent.syn seg member syn
          have opened := connectBlock_opened net env (trackWindow y.conf.tcb seg) seg
          have received : Receives x.base x.accepted y.delivered
              (connectBlock net env (trackWindow y.conf.tcb seg) seg) := by
            refine ⟨dir.got, ?_⟩
            rw [mute.delivered, List.length_nil, pos_zero, opened.rcv, seq]
            rfl
          have heard := pass.heard (allowed.alloc _) dir.small
            (fun seg' same => dir.out seg' (by cases same; exact member)) received
          refine dir.heard starts heard started (fun seg' same => by cases same; exact member) older
            (pass.kept.synced ?_)
          simp [opened.state, TcpState.mode]
    · have looked (seg : Segment) (same : label.looksAt y.conf = some seg) : seg ∈ x.out := by
        cases step with
        | event => cases same
        | arrive =>
          cases same
          exact from_peer seg rfl
        | @resume frame _ _ top _ =>
          rw [Label.looksAt, top] at same
          exact dir.frames frame (by rw [top]; exact List.mem_cons_self) seg same
      obtain ⟨cur, same, heard⟩ := step.heard starts (allowed.alloc _) dir.small ⟨dir.got, rcv⟩ synced
        (fun seg same => dir.out seg (looked seg same)) dir.untaken
      refine dir.heard starts heard started (fun seg at_hand => ?_) older (kept.synced synced)
      rcases same with none | same
      · rw [none] at at_hand
        cases at_hand
      · exact looked seg (same.symm.trans at_hand)

end

theorem Done.sends (done : Done x y) (allowed : Allowed x y env label) (step : Step net env x.conf label res below) :
    Done (x.after label res below) y := by
  cases starts : label.starts x.conf.tcb with
  | true =>
    have never := allowed.unstarted starts
    rw [done.started] at never
    cases never
  | false =>
    have closed : x.conf.tcb.state.mode ≠ .sending := by rcases done.mode with mode | mode <;> simp [mode]
    obtain ⟨seg, member, flag⟩ := done.fin
    rw [Host.after_plain starts, accepted_of_closed closed, append_nil]
    exact ⟨done.started, (step.kept starts).final done.mode, ⟨seg, mem_append_left _ member, flag⟩, done.all,
      done.told⟩

theorem Done.hears (done : Done x y) (sound : Sound y) (allowed : Allowed y x env label) :
    Done x (y.after label res below) := by
  cases starts : label.starts y.conf.tcb with
  | true =>
    -- A receiver that starts only now has delivered nothing, so the stream was empty.
    have empty : x.accepted = [] := by
      have all := done.all
      rw [(sound.blank (allowed.unstarted starts)).mute.delivered] at all
      exact List.prefix_nil.mp all
    refine ⟨done.started, done.mode, done.fin, ?_, fun pre post _ => ?_⟩
    · rw [empty]
      exact nil_prefix
    · rw [empty]
      exact nil_prefix
  | false =>
    rw [Host.after_plain starts]
    refine ⟨done.started, done.mode, done.fin, ?_, told_append done.all done.told⟩
    show x.accepted <+: bytes (y.ups ++ res.ups)
    rw [bytes_append]
    exact done.all.trans (prefix_append _ _)

end Directions

end Kappara.Tcp
