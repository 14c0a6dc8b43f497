import Kappara.Tcp.Opening
import Kappara.Tcp.Timer

/-! Whether a closed connection stays silent.

tcp_retransmit_main looks at the timer and not at the state, so a block is silent
after its connection exactly when the timer was off as the connection ended. A reset
and T_DISCON_REQ do not turn it off, and a send loop or a retransmission that waits
in ip_send meanwhile turns it on again. -/

set_option autoImplicit false

namespace Kappara.Tcp

open BlockChain Net

-- No connection, or one that has ended.
def TcpState.over : TcpState → Bool
  | .closed | .bound | .listen | .timeWait => true
  | _ => false

/-- In the states picked out the retransmission timer is off. -/
def Off (K : TcpState → Bool) (s : Tcb) : Prop := K s.state = true → s.rtoExpires = 0#32

-- Some of the states without a connection, BOUND with LISTEN.
structure Picks (K : TcpState → Bool) : Prop where
  past : ∀ state, K state = true → state.over = true
  listen : K .listen = true → K .bound = true

section Passes

variable {net : Interfaces} {env : Env} {s : Tcb} {seg : Segment} {K : TcpState → Bool}

theorem Picks.one {k : TcpState} (past : k.over = true) (other : .listen ≠ k) : Picks (· == k) :=
  ⟨fun _ same => eq_of_beq same ▸ past, fun same => absurd (eq_of_beq same) other⟩

theorem Picks.off (picks : Picks K) (other : s.state.over = false) : Off K s := by
  intro picked
  rw [picks.past _ picked] at other
  cases other

theorem Picks.connected (picks : Picks K) (connected : s.state.connected = true) : Off K s := by
  apply picks.off
  cases state : s.state <;> simp_all [TcpState.connected, TcpState.over]

theorem off_bears (picks : Picks K) : Bears env (Off K) where
  rcv _ off := off
  fin {s} off := by
    unfold finState
    split
    · exact picks.off rfl
    · exact picks.off rfl
    · exact fun _ => rfl
    · exact off
  covered {s} off := by
    unfold ackState
    split
    · split
      · exact fun _ => rfl
      · exact fun _ => rfl
      · exact fun _ => rfl
      · exact off
    · exact off
  guard _ off := off
  advance {s} ack connected _ := by
    apply picks.connected
    rw [(ackAdvance_acked env s ack).state]
    exact connected
  congest _ _ _ off := off

/-- A SYN or FIN leaves the block in a state of its own. -/
theorem sendLast_counted_off {flags : Flags} (one : flags.syn = !flags.fin) (open_ : s.state.over = false)
    (picks : Picks K) : Off K (sendLast net env s flags).tcb := by
  refine sendLast_tcb (picks.off open_) (picks.off ?_)
  rw [(countSegment_counted env s flags one).state]
  exact open_

theorem arrive_off (picks : Picks K) (off : Off K s)
    (reset : seg.dstPort = s.localPort → s.state.connected = true → s.fromPeer seg = true → seg.flags.rst = true →
      s.rtoExpires = 0#32) : Off K (arrive net env s seg).tcb := by
  have window : Off K (trackWindow s seg) := off
  apply arrive_elim (P := fun res => Off K res.tcb)
  case dropped => exact off
  case listen =>
    intro _
    rw [inputListen]
    split <;> exact off
  case ignored => exact fun _ => window
  case synSent =>
    intro _ _
    rw [inputSynSent]
    split
    · have joined : Off K (connectBlock net env (trackWindow s seg) seg) := picks.off rfl
      exact plain_tcb .control (fun s' => .ret s' _) (countSegment_ack _) joined joined
    · exact window
  case synReceived =>
    intro _ _
    rw [inputSynReceived]
    split
    · exact picks.off rfl
    · exact window
  case connected =>
    intro port connected
    exact (off_bears picks).inputConnected connected window fun peer flag _ => reset port connected peer flag
  case timeWait => exact fun _ _ => inputTimeWait_tcb seg window

theorem rejectLoop_off (fuel : Nat) (off : Off K s) : Off K (rejectLoop net env fuel s).tcb :=
  rejectLoop_tcb fuel (fun _ _ _ off => off) (fun _ off => off) off

/-- Without a timer that fires a tick changes a block only by ending TIME_WAIT. -/
theorem retransmit_off (now : Word) (off : Off K s) (waited : Off (· == .timeWait) s) :
    Off K (retransmit net env s now).tcb := by
  apply retransmit_elim (P := fun res => Off K res.tcb) off
  case waited => exact fun state _ => waited (by rw [state]; rfl)
  case gaveUp => exact fun _ _ _ => rfl
  case fires =>
    intro fired _
    -- the timer runs, so the state is neither CLOSED nor TIME_WAIT where it is the one in question
    have open_ : K s.state ≠ true := fun picked => fired.1 (off picked)
    have backoff : (rtxBackoff s).state = s.state := by
      unfold rtxBackoff
      split <;> rfl
    exact rtxEmit_tcb (fun picked => absurd (backoff ▸ picked) open_) fun picked => absurd (backoff ▸ picked) open_

-- What binds a block to a port, whatever its state.
def Event.binds : Event → Bool
  | .bindReq _ _ => true
  | _ => false

theorem handle_off (e : Event) (picks : Picks K) (off : Off K s) (waited : Off (· == .timeWait) s)
    (unbound : e.binds = true → (K .bound = false ∧ K .closed = false) ∨ s.rtoExpires = 0#32)
    (quiet : e = .disconReq → s.state.aborts = true → s.rtoExpires = 0#32) : Off K (handle net env s e).tcb := by
  apply handle_elim (P := fun res => Off K res.tcb) fun _ _ _ _ => off
  case bindReq =>
    intro port answer bind _ bound port state ups either _
    rcases unbound (by rw [bind]; rfl) with apart | still
    · rcases either with rfl | rfl <;> intro picked <;> simp_all [Res.ret]
    · exact fun _ => still
  case connReq | accept => exact fun _ _ _ _ _ => sendLast_counted_off rfl rfl picks
  case listenReq => exact fun _ bound picked => off (by rw [bound]; exact picks.listen picked)
  case connRes => exact fun _ => off
  case dataReq =>
    intro payload _ state _ _
    apply (off_bears picks).tcpTrySendPending
    rw [appendBuf_eq]
    exact picks.off (show s.state.over = false by rw [state]; rfl)
  case ordrelReq =>
    rintro _ _ _ (rfl | rfl)
    all_goals exact sendLast_counted_off rfl rfl picks
  case disconReq =>
    intro asked
    apply handleDisconReq_elim (P := fun res => Off K res.tcb) off
    · exact fun _ => rejectLoop_off _ off
    · exact fun aborts => sendLast_plain (countSegment_rst _) fun _ => quiet asked aborts
  case drain => exact fun _ _ => sendLast_plain (countSegment_ack s) off
  case tick => exact fun now _ => retransmit_off now off waited

theorem resume_off (frame : Frame) (picks : Picks K) (off : Off K s)
    (open_ : frame.rearms = true → s.state.over = false) : Off K (resume net env s frame).tcb := by
  cases frame with
  | ret | connCon ip port | finAck => exact off
  | fastRetransmit seg => exact (off_bears picks).afterAck seg off
  | dataAck seg => exact (off_bears picks).inputFin seg off
  | reject => exact rejectLoop_off _ off
  | rtx saved now => exact picks.off (open_ rfl)
  | trySend n after =>
    apply (off_bears picks).trySendLoop
    obtain ⟨_, _, _, _, _, eq⟩ := trySendCount_eq env s n
    rw [eq]
    exact picks.off (open_ rfl)

end Passes

/-- What ends a connection finds its timer off, and no ip_send returns to a send loop or a retransmission whose
connection is over. -/
def settled (c : Conf) (_ : Env) (label : Label) : Prop :=
  match label with
  | .event e => e = .disconReq → c.tcb.state.aborts = true → c.tcb.rtoExpires = 0#32
  | .arrive seg => seg.dstPort = c.tcb.localPort → c.tcb.state.connected = true → c.tcb.fromPeer seg = true →
      seg.flags.rst = true → c.tcb.rtoExpires = 0#32
  | .resume =>
    match c.stack with
    | [] => True
    | frame :: _ => frame.rearms = true → c.tcb.state.over = false

instance settled.decidable (c : Conf) (env : Env) (label : Label) : Decidable (settled c env label) :=
  match label with
  | .arrive _ => inferInstanceAs (Decidable (_ → _ → _ → _ → _))
  | .event _ => inferInstanceAs (Decidable (_ → _ → _))
  | .resume =>
    match c with
    | ⟨_, []⟩ => isTrue trivial
    | ⟨_, _ :: _⟩ => inferInstanceAs (Decidable (_ → _))

def Label.binds : Label → Bool
  | .event e => e.binds
  | _ => false

-- The label starts no connection on the block.
def Label.startsNone (s : Tcb) : Label → Bool
  | .event e => !e.starts s
  | _ => true

-- A pass takes the block to CLOSED; a bind, which may do so in any state, ends no connection.
structure Closes (net : Interfaces) (env : Env) (c : Conf) (label : Label) (res : Res) (below : List Frame) : Prop where
  ran : pass net env c label = some (res, below)
  unbound : label.binds = false
  before : c.tcb.state ≠ .closed
  after : res.tcb.state = .closed

section Runs

variable {net : Interfaces} {env : Env} {s : Tcb} {seg : Segment} {c : Conf} {label : Label} {res : Res}
  {below : List Frame} {K : TcpState → Bool}

theorem pass_off (picks : Picks K) (off : Off K c.tcb) (waited : Off (· == .timeWait) c.tcb) (met : settled c env label)
    (unbound : label.binds = true → (K .bound = false ∧ K .closed = false) ∨ c.tcb.rtoExpires = 0#32)
    (ran : pass net env c label = some (res, below)) : Off K res.tcb := by
  obtain ⟨s, stack⟩ := c
  cases label with
  | event e =>
    cases stack with
    | cons frame rest => cases ran
    | nil =>
      cases ran
      exact handle_off e picks off waited unbound met
  | arrive seg =>
    cases ran
    exact arrive_off picks off met
  | resume =>
    cases stack with
    | nil => cases ran
    | cons frame rest =>
      cases ran
      exact resume_off frame picks off met

theorem Reach.waited (reached : Reach net settled c) : Off (· == .timeWait) c.tcb := by
  induction reached with
  | start => exact fun state => by cases state
  | next _ met ran ih => exact pass_off (.one rfl (by simp)) ih ih met (fun _ => .inl (by decide)) ran

theorem Closes.off (closes : Closes net env c label res below) (reached : Reach net settled c)
    (met : settled c env label) : res.tcb.rtoExpires = 0#32 := by
  have off : Off (· == .closed) res.tcb := by
    apply pass_off (.one rfl (by simp)) _ reached.waited met _ closes.ran
    · intro state
      exact absurd (eq_of_beq state) closes.before
    · intro binds
      rw [closes.unbound] at binds
      cases binds
  exact off (by rw [closes.after]; rfl)

/-- Nothing but T_CONN_REQ and T_CONN_RES starts a connection. -/
theorem pass_dead (dead : c.tcb.state.mode = .dead) (met : settled c env label) (none : label.startsNone c.tcb = true)
    (ran : pass net env c label = some (res, below)) : res.tcb.state.mode = .dead := by
  have held {s : Tcb} (dead : s.state.mode = .dead) {s' : Tcb} (held : Held s s') : s'.state.mode = .dead :=
    held.mode.elim (·.trans dead) id
  obtain ⟨s, stack⟩ := c
  cases label with
  | event e =>
    cases stack with
    | cons frame rest => cases ran
    | nil =>
      cases ran
      have spec := handle_spec net env s e
      generalize handle net env s e = res at spec
      cases spec with
      | deliver _ _ delivered => exact held dead delivered.held
      | connReq state | accept state => simp [Label.startsNone, Event.starts, show s.state = _ from state] at none
      | dataReq state => simp [TcpState.mode, show s.state = _ from state] at dead
      | ordrelReq sending => simp [show s.state.mode = _ from sending] at dead
  | arrive seg =>
    cases ran
    have spec := arrive_spec net env s seg
    generalize arrive net env s seg = res at spec
    cases spec with
    | quiet idle => exact held dead idle.toHeld
    | taken _ _ settle => exact absurd dead settle.mode
  | resume =>
    cases stack with
    | nil => cases ran
    | cons frame rest =>
      cases ran
      have still (rearms : frame.rearms = true) : False := by
        have open_ : s.state.over = false := met rearms
        cases state : s.state <;> simp_all [TcpState.mode, TcpState.over]
      have spec := resume_spec net env s frame (fun _ => dead) (by rintro n after rfl; exact (still rfl).elim)
      generalize resume net env s frame = res at spec
      cases spec with
      | deliver _ delivered => exact held dead delivered.held
      | finAck => exact dead
      | trySend => exact (still rfl).elim

/-- A block without a connection and without a timer stays so until one is started. -/
theorem rests (steps : List (Env × Label)) (dead : c.tcb.state.mode = .dead) (off : c.tcb.rtoExpires = 0#32)
    (later : RunOk net (fun c env label => settled c env label ∧ label.startsNone c.tcb = true) c steps) :
    (run net c steps).tcb.state.mode = .dead ∧ (run net c steps).tcb.rtoExpires = 0#32 := by
  induction steps generalizing c with
  | nil => exact ⟨dead, off⟩
  | cons step rest ih =>
    have kept : (next net c step).tcb.state.mode = .dead ∧ (next net c step).tcb.rtoExpires = 0#32 := by
      rw [Tcp.next]
      split
      next res below ran =>
        have still := pass_dead dead later.1.1 later.1.2 ran
        have silent : Off TcpState.over res.tcb :=
          pass_off ⟨fun _ past => past, fun _ => rfl⟩ (fun _ => off) (fun _ => off) later.1.1 (fun _ => .inr off) ran
        refine ⟨still, silent ?_⟩
        cases state : res.tcb.state <;> simp_all [TcpState.mode, TcpState.over]
      · exact ⟨dead, off⟩
    exact ih kept.1 kept.2 later.2

/-- In a settled run, after the pass that closed a connection, ticks send and tell nothing until another
connection is started on the block. -/
theorem closed_silent_when_settled (net : Interfaces) (c : Conf) (env : Env) (label : Label) (res : Res)
    (below : List Frame)
    (reached : Reach net settled c) (met : settled c env label) (closes : Closes net env c label res below)
    (steps : List (Env × Label))
    (later : RunOk net (fun c env label => settled c env label ∧ label.startsNone c.tcb = true) (res.conf below) steps)
    (env' : Env) (now : Word) (res' : Res) (below' : List Frame)
    (ticked : pass net env' (run net (res.conf below) steps) (.event (.tick now)) = some (res', below')) :
    res'.segments = [] ∧ res'.ups = [] := by
  have closed : (res.conf below).tcb.state.mode = .dead := by
    rw [Res.conf, closes.after]
    rfl
  obtain ⟨dead, off⟩ := rests steps closed (closes.off reached met) later
  generalize run net (res.conf below) steps = c' at ticked dead off
  obtain ⟨s, stack⟩ := c'
  cases stack with
  | cons frame rest => cases ticked
  | nil =>
    cases ticked
    have other : s.state ≠ .timeWait := by
      rintro state
      simp [TcpState.mode, state] at dead
    rw [handle, retransmit, if_neg other, if_pos (.inl off)]
    exact ⟨rfl, rfl⟩

def sentLan : List (Env × Label) :=
  openLan ++ [(.calm 3#32, .event (.dataReq ⟨[[1#8]], one_small⟩)), (.calm 3#32, .resume)]

def resetLan : Label := .arrive (fromLan flagRst 100#32 0#32 [])

theorem closed_silent_when_settled_reset :
    let c := run lan fresh openLan
    let res := arrive lan (.calm 4#32) c.tcb (fromLan flagRst 100#32 0#32 [])
    c.tcb.state = .established ∧ res.tcb.state = .closed ∧ (retransmit lan (.calm 9#32) res.tcb 900#32).ups = [] := by
  refine ⟨by decide +kernel, by decide +kernel, ?_⟩
  exact (closed_silent_when_settled lan (run lan fresh openLan) (.calm 4#32) resetLan _ _
    (.run openLan .start (by decide +kernel)) (by decide +kernel)
    ⟨rfl, rfl, by decide +kernel, by decide +kernel⟩ [] trivial (.calm 9#32) 900#32 _ _ rfl).2

/-- A reset that finds a byte unacknowledged closes the connection; the next tick after the deadline sends the byte
again. -/
theorem closed_block_sends : ∃ c res below, Reach lan (fun _ _ _ => True) c ∧
    Closes lan (.calm 4#32) c resetLan res below ∧
    ∃ res' below', pass lan (.calm 104#32) (res.conf below) (.event (.tick 104#32)) = some (res', below') ∧
      res'.segments ≠ [] := by
  have all : RunOk lan (fun _ _ _ => True) fresh sentLan := by decide +kernel
  refine ⟨run lan fresh sentLan, _, _, .run sentLan .start all, ⟨rfl, rfl, by decide +kernel, by decide +kernel⟩, _, _,
    rfl, ?_⟩
  decide +kernel

end Runs

end Kappara.Tcp
