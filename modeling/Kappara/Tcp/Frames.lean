import Kappara.Tcp.Steps

/-! The stack of pending ip_send calls along a run.

The guard in_send is set exactly while one call of the send loop is pending,
however deep the loopback has nested; this is what makes the loop's counting
after the call sound. -/

set_option autoImplicit false

namespace Kappara.Tcp

open BlockChain Net

section Held

variable {net : Interfaces} {env : Env} {cur : Option Segment} {s s' : Tcb} {ups : List Ind} {res : Res}

theorem setRcvNxt_held (s : Tcb) (v : Word) : Held s (s.setRcvNxt v) :=
  ⟨rfl, rfl, rfl, rfl, rfl, rfl, rfl, .inl rfl, fun _ => ⟨rfl, rfl, rfl⟩, id⟩

theorem Recvs.held (delivered : Recvs env cur s ups s') : Held s s' := by
  induction delivered with
  | done => exact (Idle.refl _).toHeld
  | idle first _ ih => exact first.toHeld.trans ih
  | data _ _ _ _ _ ih => exact (setRcvNxt_held _ _).trans ih

theorem Deliver.held (pass : Deliver net env cur s res) : Held s res.tcb := by
  cases pass with
  | run delivered _ _ => exact delivered.held
  | fin delivered _ _ _ _ _ => exact (delivered.held.trans (setRcvNxt_held _ _)).trans (finState_idle env _).toHeld

end Held

def Frame.looping : Frame → Bool
  | .trySend _ _ => true
  | _ => false

def Frame.gathered : Frame → Nat
  | .trySend n _ => n
  | _ => 0

def loops (stack : List Frame) : Nat := stack.countP Frame.looping

def gathered : List Frame → Nat
  | [] => 0
  | frame :: rest => frame.gathered + gathered rest

@[simp] theorem loops_nil : loops [] = 0 := rfl

@[simp] theorem loops_cons (frame : Frame) (rest : List Frame) :
    loops (frame :: rest) = (if frame.looping then 1 else 0) + loops rest := by
  rw [loops, List.countP_cons, Nat.add_comm]
  rfl

theorem gathered_of_loops {stack : List Frame} (none : loops stack = 0) : gathered stack = 0 := by
  induction stack with
  | nil => rfl
  | cons frame rest ih =>
    cases frame <;> simp_all [Frame.looping, Frame.gathered, gathered]

theorem not_looping {frame : Frame} (kind : frame.tail = true ∨ frame = .reject) : frame.looping = false := by
  rcases kind with tail | rfl
  · cases frame <;> first | rfl | cases tail
  · rfl

theorem gathered_push (frame : Frame) (rest : List Frame) (notLoop : frame.looping = false) :
    gathered (frame :: rest) = gathered rest := by
  cases frame <;> first | exact Nat.zero_add _ | cases notLoop

/-- The frames fit the block: the send loop is pending exactly while in_send is set, and only in a
state that allows it; a reject is pending only at a listener. -/
structure Shape (c : Conf) : Prop where
  loop : loops c.stack = if c.tcb.inSend then 1 else 0
  mode : c.tcb.inSend = true → c.tcb.state.mode = .sending ∨ c.tcb.state.mode = .dead
  reject : Frame.reject ∈ c.stack → c.tcb.state.mode = .dead

variable {c : Conf} {sent : Option (Segment × Frame)} {label : Label} {flags : Flags}
variable {ok : Conf → Env → Label → Prop}

section Shape

variable {net : Interfaces} {env : Env} {cur : Option Segment} {seg : Segment} {s s' : Tcb} {frame : Frame} {res : Res}
  {below : List Frame}

theorem Held.shape (shape : Shape c) (held : Held c.tcb s') : Shape ⟨s', c.stack⟩ where
  loop := by rw [shape.loop, held.inSend]
  mode busy := by
    rcases held.mode with same | dead
    · rw [same]
      exact shape.mode (held.inSend ▸ busy)
    · exact .inr dead
  reject member := by
    rcases held.mode with same | dead
    · rw [same]
      exact shape.reject member
    · exact dead

/-- A frame outside the send loop may be pushed; a reject needs the mode it belongs to. -/
theorem Shape.push (shape : Shape c) (notLoop : frame.looping = false)
    (reject : frame = .reject → c.tcb.state.mode = .dead) : Shape ⟨c.tcb, frame :: c.stack⟩ where
  loop := by
    rw [loops_cons, notLoop, shape.loop]
    simp
  mode := shape.mode
  reject member := by
    rcases List.mem_cons.mp member with same | older
    · exact reject same.symm
    · exact shape.reject older

theorem Shape.pushTail (shape : Shape c) (tail : frame.tail = true) : Shape ⟨c.tcb, frame :: c.stack⟩ := by
  refine shape.push ?_ ?_ <;> cases frame <;> simp_all [Frame.tail, Frame.looping]

theorem Emits.shape (emits : Emits net env cur s sent) (shape : Shape ⟨s, below⟩) :
    Shape ⟨s, (sent.map (·.2)).toList ++ below⟩ := by
  cases emits with
  | nothing => exact shape
  | bare _ follows | again _ follows => exact shape.pushTail follows.tail
  | repeated _ _ => exact shape.pushTail rfl
  | reset _ _ _ kind =>
    rcases kind with tail | ⟨rfl, dead⟩
    · exact shape.pushTail tail
    · exact shape.push rfl (fun _ => dead)

theorem Emits.gathered (emits : Emits net env cur s sent) :
    gathered ((sent.map (·.2)).toList ++ below) = gathered below := by
  cases emits with
  | nothing => rfl
  | bare _ follows | again _ follows => exact gathered_push _ _ (not_looping (.inl follows.tail))
  | repeated _ _ => exact gathered_push _ _ rfl
  | reset _ _ _ kind => exact gathered_push _ _ (not_looping (kind.imp_right And.left))

theorem Deliver.shape (pass : Deliver net env cur s res) (shape : Shape ⟨s, below⟩) : Shape (res.conf below) := by
  have held := pass.held
  cases pass with
  | run delivered _ emits => exact emits.shape (held.shape shape)
  | @fin s' ups last seg sent _ _ _ _ _ finish =>
    rcases sent with _ | ⟨ack, frame⟩
    · exact held.shape shape
    · obtain ⟨rfl, -⟩ := finish ack frame rfl
      exact (held.shape shape).push rfl (by simp)

theorem Pass.shape (pass : Pass net env cur s res) (shape : Shape ⟨s, below⟩) : Shape (res.conf below) := by
  cases pass with
  | deliver pass => exact pass.shape shape
  | fresh _ idle mode chunk =>
    refine ⟨?_, fun _ => mode, fun member => ?_⟩
    · have none : loops below = 0 := by simpa [idle] using shape.loop
      simp [Res.conf, Frame.looping, none]
    · exact shape.reject (by simpa [Res.conf] using member)

/-- One pass of a configuration, by what starts it. -/
inductive Step (net : Interfaces) (env : Env) (c : Conf) : Label → Res → List Frame → Prop where
  | event {e : Event} {res : Res} : c.stack = [] → Handled net env c.tcb e res → Step net env c (.event e) res []
  | arrive {seg : Segment} {res : Res} : Arrived net env c.tcb seg res → Step net env c (.arrive seg) res c.stack
  | resume {frame : Frame} {below : List Frame} {res : Res} : c.stack = frame :: below →
      Resumed net env c.tcb frame res → Step net env c .resume res below

theorem Shape.resume (shape : Shape ⟨s, frame :: below⟩) : Resumed net env s frame (resume net env s frame) := by
  refine resume_spec net env s frame (fun same => shape.reject (by simp [same])) (fun n after same => ?_)
  have busy : s.inSend = true := by
    have counted := shape.loop
    simp only [same, loops_cons, Frame.looping] at counted
    by_contra idle
    simp [idle] at counted
  exact ⟨busy, shape.mode busy⟩

theorem pass_step (shape : Shape c) (ran : pass net env c label = some (res, below)) :
    Step net env c label res below := by
  obtain ⟨s, stack⟩ := c
  cases label with
  | event e =>
    cases stack with
    | nil =>
      cases ran
      exact .event rfl (handle_spec net env s e)
    | cons frame rest => cases ran
  | arrive seg =>
    cases ran
    exact .arrive (arrive_spec net env s seg)
  | resume =>
    cases stack with
    | nil => cases ran
    | cons frame rest =>
      cases ran
      exact .resume rfl shape.resume

theorem shape_empty (idle : s.inSend = false) : Shape ⟨s, []⟩ :=
  ⟨by simp [idle], fun busy => by simp [idle] at busy, fun member => by cases member⟩

theorem Shape.idle (shape : Shape ⟨s, []⟩) : s.inSend = false := by
  have none := shape.loop
  by_contra busy
  simp [busy] at none

theorem Shape.pop (shape : Shape ⟨s, frame :: below⟩) (notLoop : frame.looping = false) : Shape ⟨s, below⟩ where
  loop := by simpa [notLoop] using shape.loop
  mode := shape.mode
  reject member := shape.reject (.tail _ member)

/-- The send loop's frame is the only one of its kind, so in_send may be cleared when it is taken off. -/
theorem Shape.popLoop (env : Env) {n : Nat} {after : After} (shape : Shape ⟨s, .trySend n after :: below⟩) :
    Shape ⟨(trySendCount env s n).setInSend false, below⟩ where
  loop := by
    have counted := shape.loop
    cases busy : s.inSend <;> simp [busy, Frame.looping] at counted
    exact counted
  mode busy := nomatch busy
  reject member := by
    obtain ⟨_, _, _, _, _, eq⟩ := trySendCount_eq env s n
    rw [eq]
    exact shape.reject (.tail _ member)

theorem Shape.busy {n : Nat} {after : After} (shape : Shape ⟨s, .trySend n after :: below⟩) :
    s.inSend = true ∧ gathered below = 0 := by
  have counted := shape.loop
  cases busy : s.inSend
  · simp [busy, Frame.looping] at counted
  · simp only [busy, loops_cons, Frame.looping] at counted
    exact ⟨rfl, gathered_of_loops (by omega)⟩

/-- Before a connection is open no send is pending, so any mode may follow. -/
theorem Shape.opening (shape : Shape ⟨s, below⟩) (mode : s.state.mode = .synSent ∨ s.state.mode = .synReceived)
    (same : s'.inSend = s.inSend) : Shape ⟨s', below⟩ := by
  have idle : s.inSend = false := by
    by_contra busy
    have allowed := shape.mode (by simpa using busy)
    rcases mode with mode | mode <;> simp [mode] at allowed
  refine ⟨by rw [shape.loop, same], fun busy => ?_, fun member => ?_⟩
  · rw [same, idle] at busy
    cases busy
  · have dead := shape.reject member
    rcases mode with mode | mode <;> simp [mode] at dead

theorem Settle.shape (settled : Settle net env s seg s') (shape : Shape ⟨s, below⟩) : Shape ⟨s', below⟩ := by
  cases settled with
  | idle _ idle => exact idle.shape shape
  | ack =>
    have acked := ackAdvance_acked env (trackWindow s seg) seg.ack
    refine ⟨by rw [shape.loop, acked.inSend]; rfl, ?_, ?_⟩
    · rw [acked.inSend, acked.state]
      exact shape.mode
    · rw [acked.state]
      exact shape.reject
  | connect state =>
    exact shape.opening (.inl (by rw [state]; rfl)) (connectBlock_opened net env _ seg).inSend
  | establish state =>
    exact shape.opening (.inr (by rw [state]; rfl)) (establishBlock_opened env _ seg).inSend

theorem Control.shape (control : Control net env s flags res) (one : flags.syn = !flags.fin)
    (idle : s.inSend = false) : Shape (res.conf []) := by
  cases control with
  | skipped => exact shape_empty idle
  | counted sent =>
    have counted := countSegment_counted env s flags one
    have quiet : Shape ⟨countSegment env s flags [], []⟩ := shape_empty (counted.inSend.trans idle)
    rcases sent with rfl | rfl
    · exact quiet
    · exact quiet.pushTail rfl

theorem Arrived.shape (arrived : Arrived net env s seg res) (shape : Shape ⟨s, below⟩) : Shape (res.conf below) := by
  cases arrived with
  | quiet idle => exact idle.shape shape
  | taken _ _ settled pass => exact pass.shape (settled.shape shape)

theorem Step.shape (step : Step net env c label res below) (shape : Shape c) : Shape (res.conf below) := by
  obtain ⟨s, stack⟩ := c
  cases step with
  | arrive arrived => exact arrived.shape shape
  | event empty handled =>
    cases empty
    have idle := shape.idle
    cases handled with
    | deliver _ _ pass => exact pass.shape shape
    | connReq _ control | accept _ control | ordrelReq _ _ control => exact control.shape rfl idle
    | dataReq _ _ _ pass =>
      refine pass.shape (shape_empty ?_)
      rw [appendBuf]
      split <;> exact idle
  | resume top resumed =>
    cases top
    cases resumed with
    | deliver kind pass => exact pass.shape (shape.pop (not_looping kind))
    | finAck => exact shape.pop rfl
    | @trySend gathered after _ pass => exact pass.shape (shape.popLoop env)

theorem Settle.window (settled : Settle net env s seg s') (bound : s.sndWnd.toNat < 2 ^ 30) :
    s'.sndWnd.toNat < 2 ^ 30 := by
  cases settled with
  | idle _ idle => exact idle.window bound
  | ack =>
    rw [(ackAdvance_acked env _ seg.ack).window]
    exact trackWindow_bound s seg
  | connect =>
    rw [(connectBlock_opened net env _ seg).window]
    exact trackWindow_bound s seg
  | establish =>
    rw [(establishBlock_opened env _ seg).window]
    exact trackWindow_bound s seg

theorem Pass.window (pass : Pass net env cur s res) (bound : s.sndWnd.toNat < 2 ^ 30) :
    res.tcb.sndWnd.toNat < 2 ^ 30 := by
  cases pass with
  | fresh => exact bound
  | deliver pass => exact pass.held.window bound

theorem Control.window (control : Control net env s flags res) (one : flags.syn = !flags.fin)
    (bound : s.sndWnd.toNat < 2 ^ 30) : res.tcb.sndWnd.toNat < 2 ^ 30 := by
  cases control with
  | skipped => exact bound
  | counted =>
    rw [(countSegment_counted env s flags one).window]
    exact bound

theorem Step.window (step : Step net env c label res below)
    (bound : c.tcb.sndWnd.toNat < 2 ^ 30) : res.tcb.sndWnd.toNat < 2 ^ 30 := by
  cases step with
  | event _ handled =>
    cases handled with
    | deliver _ _ pass => exact pass.held.window bound
    | connReq _ control | accept _ control | ordrelReq _ _ control => exact control.window rfl bound
    | dataReq _ _ _ pass =>
      refine pass.window ?_
      rw [appendBuf_eq]
      exact bound
  | arrive arrived =>
    cases arrived with
    | quiet idle => exact idle.window bound
    | taken _ _ settled pass => exact pass.window (settled.window bound)
  | resume _ resumed =>
    cases resumed with
    | deliver _ pass => exact pass.held.window bound
    | finAck => exact bound
    | @trySend n _ _ pass =>
      refine pass.window ?_
      obtain ⟨_, _, _, _, _, eq⟩ := trySendCount_eq env c.tcb n
      rw [eq]
      exact bound

theorem Reach.shape (reached : Reach net ok c) : Shape c := by
  induction reached with
  | start => exact shape_empty rfl
  | next _ _ ran ih => exact (pass_step ih ran).shape ih

/-- The peer's window stays far below half the sequence space. -/
theorem Reach.window (reached : Reach net ok c) : c.tcb.sndWnd.toNat < 2 ^ 30 := by
  induction reached with
  | start => exact Nat.two_pow_pos 30
  | next reached _ ran ih => exact (pass_step reached.shape ran).window ih

end Shape

section Kept

variable {net : Interfaces} {env : Env} {cur : Option Segment} {seg : Segment} {s s' : Tcb} {res : Res}

-- A block keeps its initial number, one that accepts no more data never will again, and none returns
-- to SYN_SENT.
structure Kept (s s' : Tcb) : Prop where
  iss : s'.sndIss = s.sndIss
  final : s.state.mode = .ended ∨ s.state.mode = .dead → s'.state.mode = .ended ∨ s'.state.mode = .dead
  synced : s.state.mode ≠ .synSent → s'.state.mode ≠ .synSent

theorem Held.kept (held : Held s s') : Kept s s' := by
  rcases held.mode with same | dead
  · refine ⟨held.iss, ?_, ?_⟩ <;> rw [same] <;> exact id
  · exact ⟨held.iss, fun _ => .inr dead, fun _ => by simp [dead]⟩

theorem Kept.trans {s'' : Tcb} (first : Kept s s') (second : Kept s' s'') : Kept s s'' :=
  ⟨second.iss.trans first.iss, second.final ∘ first.final, second.synced ∘ first.synced⟩

theorem Pass.kept (pass : Pass net env cur s res) : Kept s res.tcb := by
  cases pass with
  | fresh => exact ⟨rfl, id, id⟩
  | deliver pass => exact pass.held.kept

theorem Settle.kept (settled : Settle net env s seg s') : Kept s s' := by
  cases settled with
  | idle _ idle => exact idle.kept
  | ack =>
    have acked := ackAdvance_acked env (trackWindow s seg) seg.ack
    refine ⟨acked.iss, ?_, ?_⟩ <;> rw [acked.state] <;> exact id
  | connect state =>
    refine ⟨(connectBlock_opened net env _ seg).iss, ?_, ?_⟩ <;> simp [state, TcpState.mode]
  | establish state =>
    have opened := establishBlock_opened env (trackWindow s seg) seg
    refine ⟨opened.iss, ?_, ?_⟩ <;> simp [state, opened.state, TcpState.mode]

theorem trySendCount_kept (env : Env) (s : Tcb) (n : Nat) : Kept s ((trySendCount env s n).setInSend false) := by
  obtain ⟨_, _, _, _, _, eq⟩ := trySendCount_eq env s n
  rw [eq]
  exact ⟨rfl, id, id⟩

theorem Arrived.kept (arrived : Arrived net env s seg res) : Kept s res.tcb := by
  cases arrived with
  | quiet idle => exact idle.kept
  | taken _ _ settled pass => exact settled.kept.trans pass.kept

theorem Pass.buf (pass : Pass net env cur s res) : res.tcb.sndBuf = s.sndBuf := by
  cases pass with
  | fresh => rfl
  | deliver pass => exact pass.held.buf

theorem Settle.empty (settled : Settle net env s seg s') (empty : s.sndBuf = []) : s'.sndBuf = [] := by
  cases settled with
  | idle _ idle => exact idle.buf.trans empty
  | ack =>
    rcases (ackAdvance_acked env (trackWindow s seg) seg.ack).buf with ⟨_, after⟩ | ⟨some, _⟩ | ⟨some, _⟩
    · exact after
    · exact absurd empty some
    · exact absurd empty some
  | connect => exact (connectBlock_opened net env (trackWindow s seg) seg).buf.trans empty
  | establish => exact (establishBlock_opened env (trackWindow s seg) seg).buf.trans empty

theorem Arrived.empty (arrived : Arrived net env s seg res) (empty : s.sndBuf = []) : res.tcb.sndBuf = [] := by
  cases arrived with
  | quiet idle => exact idle.buf.trans empty
  | taken _ _ settled pass => exact pass.buf.trans (settled.empty empty)

end Kept

section Keeps

variable {net : Interfaces} {env : Env} {P : Tcb → Prop} {s : Tcb} {ups : List Ind} {frame : Frame}

theorem send_tcb {emitted : Option Segment} {next : Res} (here : P s) (there : P next.tcb) :
    P (Res.send ups s emitted frame next).tcb := by
  cases emitted with
  | none => exact there
  | some seg => exact here

/-- A segment that consumes no sequence number leaves the block to what follows. -/
theorem plain_tcb (site : Site) (next : Tcb → Res) (plain : countSegment env s flags [] = s) (here : P s)
    (there : P (next s).tcb) :
    P (let (s', emitted) := tcpSendSegment net env site s flags []; Res.send ups s' emitted frame (next s')).tcb := by
  obtain ⟨emitted, sent, -⟩ := tcpSendSegment_plain net env site s flags plain
  simp only [sent]
  exact send_tcb here there

theorem rtxEmit_tcb {saved : BitVec 8} {now : Word} (here : P s) (done : P (rtxDone s saved now)) :
    P (rtxEmit net env s saved now).tcb := by
  rw [rtxEmit]
  split
  · exact send_tcb here done
  · split
    · exact send_tcb here done
    · exact done

-- A property of blocks that the updates of the receive half keep.
structure Keeps (env : Env) (P : Tcb → Prop) : Prop where
  rcv : ∀ {s : Tcb} (v : Word), P s → P (s.setRcvNxt v)
  fin : ∀ {s : Tcb}, P s → P (finState env s)

section

variable (keeps : Keeps env P) (seg : Segment)
include keeps seg

theorem Keeps.inputFin (holds : P s) : P (inputFin net env s seg).tcb := by
  rw [Tcp.inputFin]
  split
  · have taken := keeps.fin (keeps.rcv (s.rcvNxt + 1) holds)
    exact plain_tcb .ackFin (fun s' => .ret s' _) (countSegment_ack _) taken taken
  · exact holds

theorem Keeps.inputData (holds : P s) : P (inputData net env s seg).tcb := by
  rw [Tcp.inputData]
  split
  · have taken := keeps.rcv (s.rcvNxt + seg.len) holds
    exact plain_tcb .ackData (fun s' => Tcp.inputFin net env s' seg) (countSegment_ack _) taken
      (keeps.inputFin seg taken)
  · exact keeps.inputFin seg holds

theorem Keeps.afterAck (holds : P (ackState env s)) : P (afterAck net env s seg).tcb :=
  keeps.inputData seg holds

end

theorem Keeps.continueAfter (keeps : Keeps env P) (after : After) (here : P s) (holds : P (ackState env s)) :
    P (continueAfter net env s after).tcb := by
  cases after with
  | ret => exact here
  | input seg => exact keeps.afterAck seg holds

/-- A segment as the last act of a handler: it is counted, or not sent at all. -/
theorem sendLast_tcb (here : P s) (counted : P (countSegment env s flags [])) : P (sendLast net env s flags).tcb := by
  rcases (control_spec net env s flags).tcb with same | sent
  · rwa [same]
  · rwa [sent]

theorem sendLast_plain (plain : countSegment env s flags [] = s) (holds : P s) : P (sendLast net env s flags).tcb :=
  sendLast_tcb holds (by rwa [plain])

theorem inputTimeWait_tcb (seg : Segment) (holds : P s) : P (inputTimeWait net env s seg).tcb := by
  rw [inputTimeWait]
  split
  · exact sendLast_plain (countSegment_ack s) holds
  · exact holds

/-- The reject loop aims the block at one entry of its backlog after the other and removes them. -/
theorem rejectLoop_tcb (fuel : Nat) (aim : ∀ s ip port, P s → P { s with remoteIp := ip, remotePort := port })
    (pop : ∀ s, P s → P (popPending s).2) (holds : P s) : P (rejectLoop net env fuel s).tcb := by
  induction fuel generalizing s with
  | zero => exact aim s _ _ holds
  | succ fuel ih =>
    rw [rejectLoop]
    split
    · exact aim s _ _ holds
    · have aimed := aim s (s.pendingQ s.pendingHead).remoteIp (s.pendingQ s.pendingHead).remotePort holds
      exact plain_tcb .control (fun s' => rejectLoop net env fuel (popPending s').2) (countSegment_rst _) aimed
        (ih (pop _ aimed))

-- The same for what an acknowledgement does to a connection: the covered FIN, the guard of the send loop, the
-- advance of snd_una and the congestion window.
structure Bears (env : Env) (P : Tcb → Prop) : Prop extends Keeps env P where
  covered : ∀ {s : Tcb}, P s → P (ackState env s)
  guard : ∀ {s : Tcb} (busy : Bool), P s → P (s.setInSend busy)
  advance : ∀ {s : Tcb} (ack : Word), s.state.connected = true → P s → P (ackAdvance env s ack)
  congest : ∀ {s : Tcb} (cwnd ssthresh : Word) (count : BitVec 8), P s →
    P { s with cwnd := cwnd, ssthresh := ssthresh, dupAckCount := count }

variable {seg : Segment}

section

variable (bears : Bears env P)
include bears

theorem Bears.afterAck (seg : Segment) (holds : P s) : P (afterAck net env s seg).tcb :=
  bears.toKeeps.afterAck seg (bears.covered holds)

theorem Bears.trySendLoop (after : After) (holds : P s) : P (trySendLoop net env s after).tcb := by
  have left := bears.guard false holds
  have done : P (Tcp.continueAfter net env (s.setInSend false) after).tcb :=
    bears.continueAfter after left (bears.covered left)
  rw [Tcp.trySendLoop]
  split
  · exact done
  · exact send_tcb holds done

theorem Bears.tcpTrySendPending (after : After) (holds : P s) : P (tcpTrySendPending net env s after).tcb := by
  rw [Tcp.tcpTrySendPending]
  split
  · exact bears.continueAfter after holds (bears.covered holds)
  · exact bears.trySendLoop after (bears.guard true holds)

theorem Bears.inputDupAck (holds : P s) : P (inputDupAck net env s seg).tcb := by
  have noted : P (countDupAck s) := bears.congest s.cwnd s.ssthresh _ holds
  rw [Tcp.inputDupAck]
  split
  · have halved : P (enterRecovery (countDupAck s)) := bears.congest _ _ _ noted
    exact send_tcb halved (bears.afterAck seg halved)
  · split
    · exact bears.tcpTrySendPending _ (bears.congest _ (countDupAck s).ssthresh (countDupAck s).dupAckCount noted)
    · exact bears.afterAck seg noted

theorem Bears.inputConnected (connected : s.state.connected = true) (holds : P s)
    (reset : s.fromPeer seg = true → seg.flags.rst = true → P (s.setState .closed)) :
    P (inputConnected net env s seg).tcb := by
  rw [Tcp.inputConnected]
  split
  · exact holds
  next peer =>
    rw [Bool.not_eq_true, Bool.not_eq_false'] at peer
    split
    next flag => exact reset peer flag
    · split
      · split
        · exact bears.tcpTrySendPending _ (bears.advance seg.ack connected holds)
        · split
          · exact bears.inputDupAck holds
          · exact bears.afterAck seg holds
      · exact bears.inputData seg holds

end

end Keeps

end Kappara.Tcp
