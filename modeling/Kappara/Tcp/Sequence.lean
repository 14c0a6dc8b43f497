import Kappara.Tcp.Frames
import Kappara.Lib.Serial

/-! The order of the send sequence numbers along a run.

The invariant counts the bytes that the send loop has handed to ip_send and not
yet added to snd_nxt: over the loopback their acknowledgement arrives first. -/

set_option autoImplicit false

namespace Kappara.Tcp

open BlockChain Net Serial

-- snd_una, snd_nxt and the send buffer in wrap-around order.
structure SeqOrdered (s : Tcb) : Prop where
  una : le s.sndUna s.sndNxt
  low : s.sndBuf ≠ [] → le s.sndBufSeq s.sndNxt
  high : s.sndBuf ≠ [] → le s.sndNxt (s.sndBufSeq + s.bufLen + 1#32)

/-- The end of what went out, with the bytes whose emission is still pending. -/
def Tcb.sentEnd (s : Tcb) (handed : Nat) : Word := s.sndNxt + BitVec.ofNat 32 handed

@[simp] theorem sentEnd_zero (s : Tcb) : s.sentEnd 0 = s.sndNxt := by simp [Tcb.sentEnd]

structure SendInv (s : Tcb) (handed : Nat) : Prop where
  small : size s.sndBuf ≤ 65535
  start : s.state.mode ≠ .dead → s.sndBuf ≠ [] → s.sndBufSeq = s.sndUna
  opening : s.state.mode = .synSent ∨ s.state.mode = .synReceived → s.sndBuf = [] ∧ dist s.sndUna s.sndNxt ≤ 1
  flight : s.state.mode = .sending → dist s.sndUna (s.sentEnd handed) ≤ size s.sndBuf
  closing : s.state.mode = .ended → dist s.sndUna (s.sentEnd handed) ≤ size s.sndBuf + 1

variable {a : Word} {seg : Segment} {c : Conf}

section Invariant

variable {net : Interfaces} {env : Env} {cur : Option Segment} {s s' : Tcb} {handed : Nat} {res : Res}
  {below : List Frame} {ack : Word}

theorem SendInv.held (inv : SendInv s handed) (held : Held s s') : SendInv s' handed := by
  have moved : s'.sentEnd handed = s.sentEnd handed := by rw [Tcb.sentEnd, held.nxt, Tcb.sentEnd]
  rcases held.mode with same | dead
  · refine ⟨?_, ?_, ?_, ?_, ?_⟩
    · rw [held.buf]
      exact inv.small
    · rw [same, held.buf, held.bufSeq, held.una]
      exact inv.start
    · rw [same, held.buf, held.una, held.nxt]
      exact inv.opening
    · rw [same, held.buf, held.una, moved]
      exact inv.flight
    · rw [same, held.buf, held.una, moved]
      exact inv.closing
  · refine ⟨by rw [held.buf]; exact inv.small, ?_, ?_, ?_, ?_⟩ <;> simp [dead]

theorem bufLen_toNat (small : size s.sndBuf ≤ 65535) : s.bufLen.toNat = size s.sndBuf := by
  rw [Tcb.bufLen, BitVec.toNat_ofNat]
  omega

theorem Chunk.fits {data : List Byte} (chunk : Chunk s data) (small : size s.sndBuf ≤ 65535) :
    (s.sndNxt - s.sndBufSeq).toNat + data.length ≤ size s.sndBuf := by
  obtain ⟨want, rfl⟩ := chunk.gathered
  have unsent := chunk.unsent
  rw [BitVec.lt_def, bufLen_toNat small] at unsent
  rw [gather_length]
  omega

theorem SendInv.fresh {data : List Byte} (inv : SendInv s 0) (mode : s.state.mode = .sending ∨ s.state.mode = .dead)
    (chunk : trySendChunk s = some data) : SendInv (s.setInSend true) data.length := by
  have spec := trySendChunk_spec chunk
  rcases mode with sending | dead
  · have fits := spec.fits inv.small
    have start := inv.start (by simp [sending]) spec.buffered
    have small := inv.small
    rw [start] at fits
    refine ⟨small, inv.start, inv.opening, fun _ => ?_, fun ended => ?_⟩
    · show dist s.sndUna (s.sndNxt + BitVec.ofNat 32 data.length) ≤ size s.sndBuf
      have bounded : dist s.sndUna s.sndNxt + data.length ≤ size s.sndBuf := fits
      rw [dist_add _ _ (by omega)]
      exact bounded
    · rw [Tcb.setInSend_state, sending] at ended
      cases ended
  · refine ⟨inv.small, ?_, ?_, ?_, ?_⟩ <;> simp [dead]

theorem dist_of_le {u b : Word} (order : le a b) (ahead : 0 < (a - u).toInt) (near : 2 * dist u b < 2 ^ 32) :
    dist u a ≤ dist u b := by
  have half : 2 * dist u a < 2 ^ 32 := by
    have sign := BitVec.toInt_eq_toNat_cond (a - u)
    unfold Serial.dist
    split at sign <;> omega
  exact (le_iff u half near).mp order

theorem Acked.size (acked : Acked s ack s') (small : size s.sndBuf ≤ 65535) :
    size s'.sndBuf = size s.sndBuf - dist s.sndUna ack := by
  have len := bufLen_toNat small
  rcases acked.buf with ⟨before, after⟩ | ⟨_, all, after⟩ | ⟨_, part, after, _⟩
  · rw [before, after]
    simp [BlockChain.size]
  · rw [BitVec.le_def, len] at all
    rw [after, Serial.dist]
    simp only [BlockChain.size]
    omega
  · rw [after, size_eq, trim_flatten, List.length_drop, ← size_eq]
    rfl

theorem Acked.start (acked : Acked s ack s') (start : s.sndBuf ≠ [] → s.sndBufSeq = s.sndUna)
    (buffered : s'.sndBuf ≠ []) : s'.sndBufSeq = s'.sndUna := by
  rcases acked.buf with ⟨_, after⟩ | ⟨_, _, after⟩ | ⟨before, _, _, seq⟩
  · exact absurd after buffered
  · exact absurd after buffered
  · rw [acked.una]
    grind

/-- An acknowledgement of no more than what went out keeps the order. -/
theorem SendInv.acked (inv : SendInv s handed) (acked : Acked s ack s')
    (mode : s.state.mode = .sending ∨ s.state.mode = .ended) (ahead : 0 < (ack - s.sndUna).toInt)
    (covered : le ack (s.sentEnd handed)) : SendInv s' handed := by
  have small := inv.small
  have shrunk := acked.size small
  have moved : s'.sentEnd handed = s.sentEnd handed := by rw [Tcb.sentEnd, acked.nxt, Tcb.sentEnd]
  have near : dist s.sndUna (s.sentEnd handed) ≤ size s.sndBuf + 1 := by
    rcases mode with mode | mode
    · exact Nat.le_succ_of_le (inv.flight mode)
    · exact inv.closing mode
  have order := dist_of_le covered ahead (by omega)
  have rest := dist_sub s.sndUna order
  refine ⟨by omega, fun _ => ?_, fun syn => ?_, fun sending => ?_, fun ended => ?_⟩
  · exact acked.start (inv.start (by rcases mode with mode | mode <;> simp [mode]))
  · rw [acked.state] at syn
    rcases mode with mode | mode <;> simp [mode] at syn
  · rw [acked.state] at sending
    have bounded := inv.flight sending
    rw [acked.una, moved]
    omega
  · rw [acked.una, moved]
    omega

theorem SendInv.opened {rcv : Word} (inv : SendInv s 0) (opened : Opened s seg rcv s')
    (mode : s.state.mode = .synSent ∨ s.state.mode = .synReceived) (covers : seg.ack = s.sndNxt) : SendInv s' 0 := by
  obtain ⟨empty, -⟩ := inv.opening mode
  have none : s'.sndBuf = [] := opened.buf.trans empty
  have sending : s'.state.mode = .sending := by rw [opened.state]; rfl
  refine ⟨?_, fun _ buffered => absurd none buffered, ?_, fun _ => ?_, ?_⟩
  · rw [none]
    exact Nat.zero_le _
  · simp [sending]
  · rw [sentEnd_zero, opened.una, opened.nxt, covers, dist_self]
    exact Nat.zero_le _
  · simp [sending]

theorem size_append (a b : Chain Byte) : size (a ++ b) = size a + size b := by
  simp [size_eq]

theorem SendInv.append {payload : Payload} (inv : SendInv s 0) (mode : s.state.mode = .sending)
    (fits : s.bufLen + BitVec.ofNat 32 (size payload.chain) ≤ tcpSndBufMax) :
    SendInv (appendBuf s payload.chain) 0 := by
  have total : size (s.sndBuf ++ payload.chain) ≤ 65535 := by
    have small := inv.small
    have modest := payload.small
    rw [BitVec.le_def, BitVec.toNat_add, bufLen_toNat small, BitVec.toNat_ofNat] at fits
    rw [size_append]
    have limit : tcpSndBufMax.toNat = 65535 := rfl
    omega
  have flight := inv.flight mode
  rw [appendBuf_eq]
  refine ⟨total, fun _ _ => ?_, ?_, fun _ => ?_, ?_⟩
  · by_cases empty : s.sndBuf = []
    · -- Only an empty buffer takes a new start, and then nothing is in flight.
      rw [empty, sentEnd_zero] at flight
      simp only [empty]
      exact eq_of_dist_zero _ (Nat.le_zero.mp flight)
    · simp only [empty]
      exact inv.start (by simp [mode]) empty
  · simp [mode]
  · show dist s.sndUna (s.sentEnd 0) ≤ size (s.sndBuf ++ payload.chain)
    rw [size_append]
    omega
  · simp [mode]

theorem dist_succ {u : Word} {n : Nat} (bounded : dist u a ≤ n) (small : n ≤ 65535) : dist u (a + 1#32) ≤ n + 1 := by
  rw [dist_add u 1 (by omega)]
  omega

/-- A connection that starts with an empty buffer is in order whether or not its SYN went out. -/
theorem Control.opening {flags : Flags} (control : Control net env s flags res) (one : flags.syn = !flags.fin)
    (mode : s.state.mode = .synSent ∨ s.state.mode = .synReceived) (empty : s.sndBuf = [])
    (first : s.sndNxt = s.sndUna) : SendInv res.tcb 0 := by
  have opening (s' : Tcb) (state : s'.state = s.state) (buf : s'.sndBuf = s.sndBuf)
      (flight : dist s'.sndUna s'.sndNxt ≤ 1) : SendInv s' 0 := by
    have none : s'.sndBuf = [] := buf.trans empty
    refine ⟨by simp [none, size], fun _ buffered => absurd none buffered, fun _ => ⟨none, flight⟩, ?_, ?_⟩
    · rcases mode with mode | mode <;> simp [state, mode]
    · rcases mode with mode | mode <;> simp [state, mode]
  cases control with
  | skipped => exact opening s rfl rfl (by simp [first])
  | counted =>
    have counted := countSegment_counted env s flags one
    refine opening _ counted.state counted.buf ?_
    rw [counted.una, counted.nxt, first]
    exact dist_succ (by simp) (by omega)

/-- The FIN takes one number past the data, sent or not. -/
theorem Control.closing {state : TcpState} (control : Control net env (s.setState state) flagAckFin res)
    (inv : SendInv s 0) (mode : s.state.mode = .sending) (ended : state.mode = .ended) : SendInv res.tcb 0 := by
  have flight := inv.flight mode
  have small := inv.small
  rw [sentEnd_zero] at flight
  have start := inv.start (by simp [mode])
  cases control with
  | skipped =>
    refine ⟨small, fun _ => start, by simp [ended], by simp [ended], fun _ => ?_⟩
    rw [sentEnd_zero]
    exact Nat.le_succ_of_le flight
  | counted =>
    have counted := countSegment_counted env (s.setState state) flagAckFin rfl
    refine ⟨?_, fun _ => ?_, ?_, ?_, fun _ => ?_⟩
    · exact small
    · exact start
    · simp [counted.state, ended]
    · simp [counted.state, ended]
    · rw [sentEnd_zero, counted.nxt]
      exact dist_succ flight small

end Invariant

section Runs

variable {net : Interfaces} {env : Env} {cur : Option Segment} {s s' : Tcb} {res : Res} {below : List Frame}

theorem Deliver.sendInv (pass : Deliver net env cur s res) (inv : SendInv s (gathered below)) :
    SendInv res.tcb (gathered (res.conf below).stack) := by
  have held := inv.held pass.held
  cases pass with
  | run _ _ emits => rwa [Res.conf, emits.gathered]
  | @fin _ _ _ _ sent _ _ _ _ _ finish =>
    rcases sent with _ | ⟨ack, frame⟩
    · exact held
    · obtain ⟨rfl, -⟩ := finish ack frame rfl
      exact (gathered_push .finAck below rfl).symm ▸ held

theorem Pass.sendInv (pass : Pass net env cur s res) (shape : Shape ⟨s, below⟩) (inv : SendInv s (gathered below)) :
    SendInv res.tcb (gathered (res.conf below).stack) := by
  cases pass with
  | deliver pass => exact pass.sendInv inv
  | fresh _ idle mode chunk =>
    have none : gathered below = 0 := gathered_of_loops (by simpa [idle] using shape.loop)
    rw [none] at inv
    simpa [Res.conf, Tcp.gathered, Frame.gathered, none] using inv.fresh mode chunk

-- The inputs that break the order: an acknowledgement beyond what went out, and a connection started
-- on a block that still holds bytes of an earlier one.
def orderly (c : Conf) (_ : Env) : Label → Prop
  | .arrive seg =>
    seg.dstPort = c.tcb.localPort → c.tcb.state.connected = true → c.tcb.fromPeer seg = true →
      seg.flags.rst = false → seg.flags.ack = true → advances c.tcb seg = true →
      le seg.ack (c.tcb.sentEnd (gathered c.stack))
  | .event (.connReq _ _ _) => c.tcb.state = .bound → c.tcb.sndBuf = []
  | .event (.accept _ _ _) => c.tcb.state = .closed → c.tcb.sndBuf = []
  | _ => True

instance (c : Conf) (env : Env) (label : Label) : Decidable (orderly c env label) :=
  match label with
  | .arrive _ => inferInstanceAs (Decidable (_ → _))
  | .resume => inferInstanceAs (Decidable True)
  | .event e =>
    match e with
    | .connReq _ _ _ => inferInstanceAs (Decidable (_ → _))
    | .accept _ _ _ => inferInstanceAs (Decidable (_ → _))
    | .bindReq _ _ | .listenReq | .connRes | .dataReq _ | .ordrelReq | .disconReq | .drain | .tick _ =>
      inferInstanceAs (Decidable True)

theorem Shape.handed_opening (shape : Shape c)
    (mode : c.tcb.state.mode = .synSent ∨ c.tcb.state.mode = .synReceived) : gathered c.stack = 0 := by
  refine gathered_of_loops ?_
  rw [shape.loop, if_neg]
  intro busy
  have allowed := shape.mode busy
  rcases mode with mode | mode <;> simp [mode] at allowed

theorem Settle.sendInv {stack : List Frame} (settled : Settle net env s seg s') (shape : Shape ⟨s, stack⟩)
    (port : seg.dstPort = s.localPort) (peer : s.fromPeer seg = true) (inv : SendInv s (gathered stack))
    (ok : orderly ⟨s, stack⟩ env (.arrive seg)) : SendInv s' (gathered stack) := by
  have windowed := inv.held (trackWindow_idle s seg).toHeld
  cases settled with
  | idle _ idle => exact inv.held idle.toHeld
  | ack connected notReset flag newer =>
    apply windowed.acked (ackAdvance_acked env _ seg.ack) (mode_connected connected)
    · exact of_decide_eq_true newer
    · exact ok port connected peer notReset flag newer
  | connect state _ _ covers =>
    have mode : s.state.mode = .synSent ∨ s.state.mode = .synReceived := .inl (by rw [state]; rfl)
    rw [shape.handed_opening mode] at windowed ⊢
    exact windowed.opened (connectBlock_opened net env _ seg) mode covers
  | establish state _ covers =>
    have mode : s.state.mode = .synSent ∨ s.state.mode = .synReceived := .inr (by rw [state]; rfl)
    rw [shape.handed_opening mode] at windowed ⊢
    exact windowed.opened (establishBlock_opened env _ seg) mode covers

theorem Arrived.sendInv (arrived : Arrived net env s seg res) (shape : Shape ⟨s, below⟩)
    (inv : SendInv s (gathered below)) (ok : orderly ⟨s, below⟩ env (.arrive seg)) :
    SendInv res.tcb (gathered (res.conf below).stack) := by
  cases arrived with
  | quiet idle => exact inv.held idle.toHeld
  | taken port peer settled pass =>
    exact pass.sendInv (settled.shape shape) (settled.sendInv shape port peer inv ok)

theorem Control.gathered {flags : Flags} (control : Control net env s flags res) :
    gathered (res.conf []).stack = 0 := by
  cases control with
  | skipped => rfl
  | counted sent => rcases sent with rfl | rfl <;> rfl

theorem Handled.sendInv {e : Event} (handled : Handled net env s e res) (shape : Shape ⟨s, []⟩) (inv : SendInv s 0)
    (ok : orderly ⟨s, []⟩ env (.event e)) : SendInv res.tcb (gathered (res.conf []).stack) := by
  cases handled with
  | deliver _ _ pass => exact pass.sendInv inv
  | connReq bound control =>
    rw [control.gathered]
    exact control.opening rfl (.inl rfl) (ok bound) rfl
  | accept closed control =>
    rw [control.gathered]
    exact control.opening rfl (.inr rfl) (ok closed) rfl
  | dataReq state _ fits pass =>
    refine pass.sendInv (shape_empty ?_) (inv.append (by rw [state]; rfl) fits)
    rw [appendBuf_eq]
    exact shape.idle
  | ordrelReq mode ended control =>
    rw [control.gathered]
    exact control.closing inv mode ended

/-- Counting the bytes handed over moves snd_nxt to where the invariant already had it. -/
theorem trySendCount_sendInv (env : Env) {n : Nat} (inv : SendInv s n)
    (mode : s.state.mode = .sending ∨ s.state.mode = .dead) : SendInv ((trySendCount env s n).setInSend false) 0 := by
  obtain ⟨_, _, _, _, _, eq⟩ := trySendCount_eq env s n
  rw [eq]
  refine ⟨inv.small, inv.start, ?_, fun sending => ?_, fun ended => ?_⟩
  · rcases mode with mode | mode <;> simp [mode]
  · rw [sentEnd_zero]
    exact inv.flight sending
  · rw [sentEnd_zero]
    exact inv.closing ended

theorem Resumed.sendInv {frame : Frame} (resumed : Resumed net env s frame res) (shape : Shape ⟨s, frame :: below⟩)
    (inv : SendInv s (gathered (frame :: below))) : SendInv res.tcb (gathered (res.conf below).stack) := by
  cases resumed with
  | deliver kind pass => exact pass.sendInv (gathered_push _ _ (not_looping kind) ▸ inv)
  | finAck => exact gathered_push .finAck below rfl ▸ inv
  | @trySend n after _ pass =>
    obtain ⟨busy, none⟩ := shape.busy
    rw [Tcp.gathered, none] at inv
    refine pass.sendInv (shape.popLoop env) ?_
    rw [none]
    exact trySendCount_sendInv env inv (shape.mode busy)

theorem Step.sendInv {label : Label} (step : Step net env c label res below) (shape : Shape c)
    (inv : SendInv c.tcb (gathered c.stack)) (ok : orderly c env label) :
    SendInv res.tcb (gathered (res.conf below).stack) := by
  obtain ⟨s, stack⟩ := c
  cases step with
  | event empty handled =>
    cases empty
    exact handled.sendInv shape inv ok
  | arrive arrived => exact arrived.sendInv shape inv ok
  | resume top resumed =>
    cases top
    exact resumed.sendInv shape inv

theorem Reach.sendInv (reached : Reach net orderly c) : SendInv c.tcb (gathered c.stack) := by
  induction reached with
  | start => exact ⟨Nat.zero_le _, fun alive => absurd rfl alive, by simp [fresh, tcpQopen],
      by simp [fresh, tcpQopen, TcpState.mode], by simp [fresh, tcpQopen, TcpState.mode]⟩
  | next reached ok ran ih => exact (pass_step reached.shape ran).sendInv reached.shape ih ok

theorem le_of_dist {b : Word} (near : dist a b ≤ 65536) : le a b := by
  refine (le_iff a (by simp) (by omega)).mpr ?_
  simp

theorem SendInv.near (inv : SendInv s 0) (live : s.state.mode ≠ .dead) :
    dist s.sndUna s.sndNxt ≤ size s.sndBuf + 1 := by
  cases mode : s.state.mode with
  | dead => exact absurd mode live
  | synSent => exact Nat.le_add_left_of_le (inv.opening (.inl mode)).2
  | synReceived => exact Nat.le_add_left_of_le (inv.opening (.inr mode)).2
  | sending => exact Nat.le_succ_of_le (sentEnd_zero s ▸ inv.flight mode)
  | ended => exact sentEnd_zero s ▸ inv.closing mode

theorem SendInv.ordered (inv : SendInv s 0) (live : s.state.mode ≠ .dead) : SeqOrdered s := by
  have near := inv.near live
  have small := inv.small
  refine ⟨le_of_dist (by omega), fun buffered => ?_, fun buffered => ?_⟩
  · rw [inv.start live buffered]
    exact le_of_dist (by omega)
  · rw [inv.start live buffered, Tcb.bufLen]
    have all : dist s.sndUna (s.sndUna + BitVec.ofNat 32 (size s.sndBuf)) = size s.sndBuf := by
      rw [dist_add _ _ (by rw [dist_self]; omega), dist_self, Nat.zero_add]
    have last : dist s.sndUna (s.sndUna + BitVec.ofNat 32 (size s.sndBuf) + 1#32) = size s.sndBuf + 1 := by
      rw [dist_add _ 1 (by omega), all]
    exact (le_iff s.sndUna (by omega) (by omega)).mpr (by omega)

theorem live_iff (state : TcpState) : state.live = true ↔ state.mode ≠ .dead := by
  cases state <;> simp [TcpState.live, TcpState.mode]

/-- In a run whose inputs are orderly, every state from SYN_SENT on keeps the send sequence numbers in
wrap-around order whenever no call of ip_send is pending. -/
theorem sequence_numbers_ordered (net : Interfaces) (c : Conf) (reached : Reach net orderly c) (quiet : c.stack = [])
    (live : c.tcb.state.live = true) : SeqOrdered c.tcb := by
  have inv := reached.sendInv
  rw [quiet] at inv
  exact inv.ordered ((live_iff _).mp live)

def halfAcked : List (Env × Label) := openLan ++
  [(.calm 3#32, .event (.dataReq ⟨[[1#8, 2#8]], oneTwo_small⟩)),
   (.calm 3#32, .resume),
   (.calm 4#32, .arrive (fromLan flagAck 100#32 2#32 []))]

theorem sequence_numbers_ordered_half_acked :
    (run lan fresh halfAcked).tcb.sndBuf = [[2#8]] ∧ SeqOrdered (run lan fresh halfAcked).tcb :=
  ⟨by decide +kernel, sequence_numbers_ordered lan _ (.run halfAcked .start (by decide +kernel)) (by decide +kernel)
    (by decide +kernel)⟩

/-- An acknowledgement of bytes never sent is accepted and leaves snd_una past snd_nxt. -/
theorem forged_ack_passes_nxt : ∃ c, Reach lan (fun _ _ _ => True) c ∧ c.stack = [] ∧ c.tcb.state.live = true ∧
    ¬ SeqOrdered c.tcb := by
  let steps := openLan ++ [(Env.calm 3#32, Label.arrive (fromLan flagAck 100#32 1001#32 []))]
  refine ⟨run lan fresh steps, .run steps .start (by decide +kernel), by decide +kernel, by decide +kernel, ?_⟩
  exact fun ordered => absurd ordered.una (by decide +kernel)

end Runs

section Queue

/-- An append, when the next byte sent has the number nxt, and an acknowledgement of n bytes. -/
inductive BufOp where
  | append (nxt : Word) (payload : Chain Byte)
  | trim (env : Env) (n : Word)

-- A payload has bytes, and they fit behind those already there.
def bufStep (s : Tcb) : BufOp → Tcb
  | .append nxt payload =>
    if 0 < size payload ∧ size s.sndBuf + size payload ≤ 65535 then appendBuf { s with sndNxt := nxt } payload else s
  | .trim env n => ackTrim env s n

/-- The same on a queue of bytes and the number of its first byte. -/
def queueStep (q : List Byte × Word) : BufOp → List Byte × Word
  | .append nxt payload =>
    if 0 < size payload ∧ q.1.length + size payload ≤ 65535 then
      (q.1 ++ payload.flatten, if q.1 = [] then nxt else q.2)
    else q
  | .trim _ n => (q.1.drop n.toNat, q.2 + n)

-- Without bytes there are no blocks, and snd_buf_seq has no meaning.
structure Holds (s : Tcb) (q : List Byte × Word) : Prop where
  bytes : s.sndBuf.flatten = q.1
  small : q.1.length ≤ 65535
  blocks : q.1 = [] → s.sndBuf = []
  seq : q.1 ≠ [] → s.sndBufSeq = q.2

theorem ackTrim_buf (env : Env) (s : Tcb) (n : Word) :
    (ackTrim env s n).sndBuf = (if s.bufLen ≤ n then [] else trim s.sndBuf n.toNat) ∧
      (n < s.bufLen → (ackTrim env s n).sndBufSeq = s.sndBufSeq + n) := by
  unfold ackTrim
  split
  next empty => simp [empty, Tcb.bufLen, size, trim]
  · split
    next all =>
      obtain ⟨_, _, _, _, eq⟩ := sampleRtt_eq env { s with sndBuf := [], sndBufSeq := 0#32 }
      rw [eq]
      exact ⟨rfl, fun part => absurd all (BitVec.not_le.mpr part)⟩
    · dsimp only
      split
      · exact ⟨rfl, fun _ => rfl⟩
      · exact ⟨rfl, fun _ => rfl⟩

theorem Holds.step {s : Tcb} {q : List Byte × Word} (op : BufOp) (holds : Holds s q) :
    Holds (bufStep s op) (queueStep q op) := by
  obtain ⟨bytes, small, blocks, seq⟩ := holds
  have length : size s.sndBuf = q.1.length := by rw [size_eq, bytes]
  cases op with
  | append nxt payload =>
    rw [bufStep, queueStep, length]
    split
    next fits =>
      rw [size_eq] at fits
      have same : s.sndBuf = [] ↔ q.1 = [] := ⟨fun none => by rw [← bytes, none, List.flatten_nil], blocks⟩
      rw [appendBuf_eq]
      refine ⟨by simp [bytes], by simpa using fits.2, fun none => ?_, fun _ => ?_⟩
      · simp [(List.append_eq_nil_iff.mp none).2] at fits
      · simp only [same]
        split
        · rfl
        next some => exact seq some
    · exact ⟨bytes, small, blocks, seq⟩
  | trim env n =>
    obtain ⟨buf, moved⟩ := ackTrim_buf env s n
    have all : s.bufLen ≤ n ↔ q.1.length ≤ n.toNat := by rw [BitVec.le_def, bufLen_toNat (length ▸ small), length]
    rw [bufStep, queueStep]
    refine ⟨?_, (List.drop_sublist ..).length_le.trans small, fun none => ?_, fun some => ?_⟩
    · rw [buf]
      split
      next gone => exact (List.drop_eq_nil_iff.mpr (all.mp gone)).symm
      · rw [trim_flatten, bytes]
    · rw [buf, if_pos (all.mpr (List.drop_eq_nil_iff.mp none))]
    · have part : ¬ s.bufLen ≤ n := fun gone => some (List.drop_eq_nil_iff.mpr (all.mp gone))
      rw [moved (BitVec.not_le.mp part), seq fun none => some (by rw [none, List.drop_nil])]

/-- The send buffer is a queue of bytes: appends and trims do to it what they do to its bytes, and a gather
takes a stretch of these. -/
theorem send_buffer_is_queue (s : Tcb) (ops : List BufOp) : ∃ t q, ops.foldl bufStep { s with sndBuf := [] } = t ∧
    ops.foldl queueStep ([], 0#32) = q ∧ t.sndBuf.flatten = q.1 ∧ (q.1 ≠ [] → t.sndBufSeq = q.2) ∧
    ∀ o k, gather t.sndBuf o k = (q.1.drop o).take k := by
  have run : ∀ s q, Holds s q → Holds (ops.foldl bufStep s) (ops.foldl queueStep q) := by
    induction ops with
    | nil => exact fun _ _ holds => holds
    | cons op rest ih => exact fun s q holds => ih _ _ (holds.step op)
  have holds := run { s with sndBuf := [] } ([], 0#32) ⟨rfl, Nat.zero_le _, fun _ => rfl, fun some => absurd rfl some⟩
  exact ⟨_, _, rfl, rfl, holds.bytes, holds.seq, fun o k => by rw [gather_eq, holds.bytes]⟩

end Queue

end Kappara.Tcp
