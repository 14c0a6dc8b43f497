import Kappara.Tcp.Stream

/-! Blocks before their connection is open.

Such a block repeats its SYN at most, so that nothing it emits can be taken for
data or for an acknowledgement. -/

set_option autoImplicit false

namespace Kappara.Tcp

open BlockChain Net

section Unopened

-- A connection not opened yet: nothing queued, nothing of the peer being looked at.
structure Unopened (c : Conf) : Prop where
  mode : c.tcb.state.mode = .dead ∨ c.tcb.state.mode = .synSent ∨ c.tcb.state.mode = .synReceived
  buf : c.tcb.sndBuf = []
  idle : c.tcb.inSend = false
  stack : ∀ frame ∈ c.stack, frame.cur = none ∧ frame ≠ .finAck

-- All that such a block can do: keep its books, repeat its SYN, refuse a backlog entry.
structure Murmur (s : Tcb) (res : Res) : Prop where
  idle : Idle s res.tcb
  plain : ∀ ind ∈ res.ups, ind.plain = true
  frame : ∀ seg frame, res.sent = some (seg, frame) → frame.cur = none ∧ frame ≠ .finAck
  sent : ∀ seg ∈ res.segments, seg.payload = [] ∧ ((seg.flags = s.pendingFlags ∧ seg.seq = s.sndUna ∧
    (s.pendingFlags.syn || s.pendingFlags.fin) = true) ∨ seg.flags = flagRst)

variable {net : Interfaces} {env : Env} {s : Tcb} {res : Res} {below : List Frame} {c : Conf} {label : Label}

theorem Recvs.idle_of_none {cur : Option Segment} {s' : Tcb} {ups : List Ind} (delivery : Recvs env cur s ups s')
    (none : cur = none) : ups = [] ∧ Idle s s' := by
  induction delivery with
  | done => exact ⟨rfl, Idle.refl _⟩
  | idle first _ ih => exact ⟨ih.1, first.trans ih.2⟩
  | data at_hand =>
    rw [none] at at_hand
    cases at_hand

theorem Unopened.not_sending (unopened : Unopened c) : c.tcb.state.mode ≠ .sending := by
  intro sending
  have mode := unopened.mode
  rw [sending] at mode
  rcases mode with mode | mode | mode <;> cases mode

theorem Deliver.murmur (pass : Deliver net env none s res) (buf : s.sndBuf = []) (mode : s.state.mode ≠ .sending) :
    Murmur s res := by
  cases pass with
  | fin _ none => cases none
  | @run s' ups last sent delivery plain emits =>
    obtain ⟨rfl, idle⟩ := delivery.idle_of_none rfl
    refine ⟨idle, plain, fun seg frame same => ?_, fun seg member => ?_⟩
    · cases same
      obtain ⟨cur, other⟩ := emits.frame
      exact ⟨cur.elim id id, other⟩
    · obtain ⟨frame, same⟩ := mem_segments member
      cases same
      cases emits with
      | bare answers =>
        rcases answers with some | established
        · cases some
        · have open_ := idle.mode
          rw [established] at open_
          rcases open_ with same | dead
          · exact absurd same.symm mode
          · cases dead
      | again buffered => exact absurd (idle.buf.trans buf) buffered
      | repeated pending => exact ⟨rfl, .inl ⟨idle.pending, idle.una, idle.pending ▸ pending⟩⟩
      | reset flags empty => exact ⟨empty, .inr flags⟩

theorem Murmur.of_idle {s' : Tcb} {ups : List Ind} (idle : Idle s s') (plain : ∀ ind ∈ ups, ind.plain = true) :
    Murmur s (.ret s' ups) :=
  ⟨idle, plain, fun _ _ none => (nomatch none), fun _ member => (nomatch member)⟩

/-- Short of a start, an unopened block only murmurs until the segment that completes its handshake. -/
theorem Step.murmur (step : Step net env c label res below) (shape : Shape c) (unopened : Unopened c)
    (plain : label.starts c.tcb = false) : Murmur c.tcb res ∨ ∃ seg s', label = .arrive seg ∧ below = c.stack ∧
      Settle net env c.tcb seg s' ∧ Pass net env (some seg) s' res := by
  have closed := unopened.not_sending
  cases step with
  | event _ handled =>
    left
    cases handled with
    | deliver _ _ pass => exact pass.murmur unopened.buf closed
    | connReq start | accept start => exact absurd plain (by simp [Label.starts, Event.starts, start])
    | dataReq open_ => exact absurd (by rw [open_]; rfl) closed
    | ordrelReq sending => exact absurd sending closed
  | arrive arrived =>
    cases arrived with
    | quiet idle plain => exact .inl (.of_idle idle plain)
    | taken _ _ settled pass => exact .inr ⟨_, _, rfl, rfl, settled, pass⟩
  | @resume frame _ _ top resumed =>
    left
    obtain ⟨alone, notFin⟩ := unopened.stack frame (by rw [top]; exact List.mem_cons_self)
    cases resumed with
    | deliver _ pass =>
      rw [alone] at pass
      exact pass.murmur unopened.buf closed
    | finAck => exact absurd rfl notFin
    | trySend =>
      obtain ⟨s, stack⟩ := c
      cases top
      have busy := shape.busy.1
      rw [show s.inSend = false from unopened.idle] at busy
      cases busy

theorem Step.below_subset (step : Step net env c label res below) : ∀ frame ∈ below, frame ∈ c.stack := by
  cases step with
  | event => exact fun _ member => (nomatch member)
  | arrive => exact fun _ member => member
  | resume top =>
    intro frame member
    rw [top]
    exact .tail _ member

theorem mem_conf_stack {frame : Frame} (member : frame ∈ (res.conf below).stack) :
    (∃ seg, res.sent = some (seg, frame)) ∨ frame ∈ below := by
  obtain ⟨s, ups, sent⟩ := res
  rcases sent with _ | ⟨seg, last⟩
  · exact .inr member
  · rcases List.mem_cons.mp member with rfl | older
    · exact .inl ⟨seg, rfl⟩
    · exact .inr older

theorem Murmur.unopened (murmur : Murmur c.tcb res) (step : Step net env c label res below) (unopened : Unopened c) :
    Unopened (res.conf below) where
  mode := by
    rcases murmur.idle.mode with same | dead
    · rw [show (res.conf below).tcb.state.mode = _ from same]
      exact unopened.mode
    · exact .inl dead
  buf := murmur.idle.buf.trans unopened.buf
  idle := murmur.idle.inSend.trans unopened.idle
  stack frame member := by
    rcases mem_conf_stack member with ⟨seg, sent⟩ | older
    · exact murmur.frame seg frame sent
    · exact unopened.stack frame (step.below_subset frame older)

end Unopened

section Hosts

variable {net : Interfaces} {env : Env} {res : Res} {below : List Frame} {h : Host} {label : Label}

theorem Host.after_plain (plain : label.starts h.conf.tcb = false) : h.after label res below =
    ⟨res.conf below, h.started, h.accepted ++ label.accepted h.conf.tcb, h.ups ++ res.ups, h.out ++ res.segments⟩ := by
  simp [Host.after, plain]

theorem accepted_of_closed {s : Tcb} (closed : s.state.mode ≠ .sending) : label.accepted s = [] := by
  cases label with
  | event e =>
    cases e with
    | dataReq payload => exact if_neg fun taken => closed (by rw [taken.1]; rfl)
    | _ => rfl
  | _ => rfl

-- A host that has not started a connection.
structure Blank (h : Host) : Prop where
  unopened : Unopened h.conf
  mode : h.conf.tcb.state.mode = .dead
  pending : h.conf.tcb.pendingFlags = Flags.none
  accepted : h.accepted = []
  plain : ∀ ind ∈ h.ups, ind.plain = true
  out : ∀ seg ∈ h.out, seg.flags = flagRst ∧ seg.payload = []

theorem Settle.mode {s s' : Tcb} {seg : Segment} (settled : Settle net env s seg s') : s.state.mode ≠ .dead := by
  intro dead
  cases settled with
  | idle mode =>
    rw [dead] at mode
    rcases mode with mode | mode <;> cases mode
  | ack connected =>
    have mode := mode_connected connected
    rw [dead] at mode
    rcases mode with mode | mode <;> cases mode
  | connect state | establish state =>
    rw [state] at dead
    cases dead

theorem Blank.next (blank : Blank h) (step : Step net env h.conf label res below) (shape : Shape h.conf)
    (plain : label.starts h.conf.tcb = false) : Blank (h.after label res below) := by
  rw [Host.after_plain plain]
  rcases step.murmur shape blank.unopened plain with murmur | ⟨seg, s', _, _, settled, _⟩
  · have dead : res.tcb.state.mode = .dead := murmur.idle.mode.elim (·.trans blank.mode) id
    have pending : h.conf.tcb.pendingFlags = Flags.none := blank.pending
    refine ⟨murmur.unopened step blank.unopened, dead, murmur.idle.pending.trans pending, ?_, ?_, ?_⟩
    · rw [blank.accepted, accepted_of_closed blank.unopened.not_sending, List.append_nil]
    · intro ind member
      exact (List.mem_append.mp member).elim (blank.plain ind) (murmur.plain ind)
    · intro seg member
      rcases List.mem_append.mp member with older | newest
      · exact blank.out seg older
      · obtain ⟨empty, ⟨_, _, pending'⟩ | reset⟩ := murmur.sent seg newest
        · rw [pending] at pending'
          cases pending'
        · exact ⟨reset, empty⟩
  · exact absurd blank.mode settled.mode

-- What holds of a host by itself in every run.
structure Sound (h : Host) : Prop where
  shape : Shape h.conf
  window : h.conf.tcb.sndWnd.toNat < 2 ^ 30
  blank : h.started = false → Blank h

theorem HostReach.sound {ok : Conf → Env → Label → Prop} (reached : HostReach net ok h) : Sound h := by
  refine ⟨reached.reach.shape, reached.reach.window, ?_⟩
  induction reached with
  | start =>
    intro _
    exact ⟨⟨.inl rfl, rfl, rfl, fun _ member => (nomatch member)⟩, rfl, rfl, rfl, fun _ member => (nomatch member),
      fun _ member => (nomatch member)⟩
  | next reached _ ran ih =>
    intro never
    obtain ⟨before, plain⟩ := Bool.or_eq_false_iff.mp never
    have shape := reached.reach.shape
    exact (ih before).next (pass_step shape ran) shape plain

end Hosts

end Kappara.Tcp
