import Kappara.Tcp.History
import Kappara.Lib.Serial

/-! One direction of a connection: the accepted bytes as a stream with places.

Place 0 is the byte after the SYN, and base its sequence number. A sender's
block is described by the places of snd_una and snd_nxt. The two may cross: a
retransmission of the front block can carry bytes that were never sent, and
then the peer acknowledges past snd_nxt. If the buffer runs empty in that
state, the next data is queued under a sequence number that lies behind
snd_una, and the connection stalls; the descriptions below cover that state. -/

set_option autoImplicit false

namespace Kappara.Tcp

open BlockChain Net Serial
open List (append_nil length_append length_drop not_mem_nil)

section Sender

-- The segment holds the bytes of the stream at its place, or lies behind what the receiver has.
def Carries (base : Word) (stream : List Byte) (got : Nat) (seg : Segment) : Prop :=
  seg.payload ≠ [] → ∃ o, seg.seq = pos base o ∧
    ((o + seg.payload.length ≤ stream.length ∧ seg.payload <+: stream.drop o) ∨ o < got)

def Behind (base : Word) (place : Nat) (seg : Segment) : Prop :=
  seg.payload ≠ [] → ∃ o, seg.seq = pos base o ∧ o < place

-- A FIN stands right after the stream and comes from a block that accepts no more.
structure FinAfter (base : Word) (stream : List Byte) (mode : Mode) (seg : Segment) : Prop where
  bare : seg.payload = []
  seq : seg.seq = pos base stream.length
  mode : mode = .ended ∨ mode = .dead

structure SentOk (base : Word) (stream : List Byte) (got : Nat) (mode : Mode) (seg : Segment) : Prop where
  carries : Carries base stream got seg
  fin : seg.flags.fin = true → FinAfter base stream mode seg

-- Data queued behind snd_una; nothing that was sent can move the receiver any more.
structure Lagging (base : Word) (got : Nat) (out : List Segment) (s : Tcb) (a n : Nat) : Prop where
  bufSeq : s.sndBufSeq = pos base n
  behind : n < a
  stuck : a = got
  idle : s.inSend = false
  out : ∀ seg ∈ out, Behind base a seg

-- The send half of an open connection, with snd_una at place a and snd_nxt at place n.
structure Sender (base : Word) (stream : List Byte) (got : Nat) (out : List Segment) (c : Conf) (a n : Nat) : Prop where
  una : c.tcb.sndUna = pos base a
  nxt : c.tcb.sndNxt = pos base n
  acked : a ≤ got
  mode : c.tcb.state.mode = .sending ∨ c.tcb.state.mode = .ended ∨ c.tcb.state.mode = .dead
  room : c.tcb.state.mode = .sending ∨ c.tcb.inSend = true → n + gathered c.stack ≤ stream.length
  bytes : c.tcb.sndBuf.flatten = stream.drop a
  empty : c.tcb.sndBuf = [] → a = stream.length
  buffered : c.tcb.sndBuf ≠ [] → a < stream.length
  start : c.tcb.sndBuf ≠ [] → c.tcb.sndBufSeq = pos base a ∨ Lagging base got out c.tcb a n
  fin : c.tcb.pendingFlags.fin = true →
    (c.tcb.state.mode = .ended ∨ c.tcb.state.mode = .dead) ∧ Solid c.tcb.sndBuf

variable {net : Interfaces} {env : Env} {cur : Option Segment} {base : Word} {stream : List Byte} {got : Nat}
  {out : List Segment} {s s' : Tcb} {seg : Segment} {below : List Frame} {a n : Nat} {res : Res}

theorem Carries.of_place {o : Nat} (seq : seg.seq = pos base o) (bytes : seg.payload <+: stream.drop o) :
    Carries base stream got seg := by
  intro carries
  refine ⟨o, seq, .inl ⟨?_, bytes⟩⟩
  have inside := bytes.length_le
  have positive := List.length_pos_iff.mpr carries
  rw [length_drop] at inside
  omega

theorem Carries.of_empty (empty : seg.payload = []) : Carries base stream got seg :=
  fun carries => absurd empty carries

theorem Carries.mono {got' : Nat} (carries : Carries base stream got seg) (more : got ≤ got') :
    Carries base stream got' seg := by
  intro nonempty
  obtain ⟨o, seq, place⟩ := carries nonempty
  exact ⟨o, seq, place.imp_right fun stale => Nat.lt_of_lt_of_le stale more⟩

theorem Sender.held (inv : Sender base stream got out ⟨s, below⟩ a n) (held : Held s s') :
    Sender base stream got out ⟨s', below⟩ a n where
  una := held.una.trans inv.una
  nxt := held.nxt.trans inv.nxt
  acked := inv.acked
  mode := by
    rcases held.mode with same | dead
    · rw [same]
      exact inv.mode
    · exact .inr (.inr dead)
  room := by
    rw [held.inSend]
    rcases held.mode with same | dead
    · rw [same]
      exact inv.room
    · rw [dead]
      rintro (sending | busy)
      · cases sending
      · exact inv.room (.inr busy)
  bytes := by
    rw [held.buf]
    exact inv.bytes
  empty := by
    rw [held.buf]
    exact inv.empty
  buffered := by
    rw [held.buf]
    exact inv.buffered
  start := by
    rw [held.buf, held.bufSeq]
    intro buffered
    refine (inv.start buffered).imp_right fun lag => ?_
    exact ⟨held.bufSeq.trans lag.bufSeq, lag.behind, lag.stuck, held.inSend.trans lag.idle, lag.out⟩
  fin := by
    rw [held.pending, held.buf]
    intro pending
    obtain ⟨mode, solid⟩ := inv.fin pending
    refine ⟨?_, solid⟩
    rcases held.mode with same | dead
    · rw [same]
      exact mode
    · exact .inr dead

/-- A frame outside the send loop and its segment join the state. -/
theorem Sender.push {frame : Frame} (inv : Sender base stream got out ⟨s, below⟩ a n) (notLoop : frame.looping = false)
    (behind : Lagging base got out s a n → Behind base a seg) :
    Sender base stream got (out ++ [seg]) ⟨s, frame :: below⟩ a n :=
  { inv with
    room := by
      rw [gathered_push frame below notLoop]
      exact inv.room
    start := by
      intro buffered
      refine (inv.start buffered).imp_right fun lag => { lag with out := ?_ }
      intro older member
      rcases List.mem_append.mp member with member | member
      · exact lag.out older member
      · rw [List.mem_singleton.mp member]
        exact behind lag }

theorem headChunk_front (s : Tcb) : headChunk s <+: s.sndBuf.flatten := by
  rw [headChunk]
  cases s.sndBuf with
  | nil => simp
  | cons block rest =>
    exact (List.take_prefix _ _).trans (List.prefix_append _ _)

section

variable (inv : Sender base stream got out ⟨s, below⟩ a n)
include inv

/-- A retransmission of the front block lies at snd_una, or behind it when the queue lags. -/
theorem Sender.again (net : Interfaces) (env : Env) (buffered : s.sndBuf ≠ []) :
    Carries base stream got (buildSegment net env s s.sndBufSeq flagAckPsh (headChunk s)) ∧
      (Lagging base got out s a n → Behind base a (buildSegment net env s s.sndBufSeq flagAckPsh (headChunk s))) := by
  constructor
  · rcases inv.start buffered with aligned | lag
    · refine .of_place aligned ?_
      rw [← inv.bytes]
      exact headChunk_front s
    · intro _
      exact ⟨n, lag.bufSeq, .inr (lag.stuck ▸ lag.behind)⟩
  · intro lag _
    exact ⟨n, lag.bufSeq, lag.behind⟩

/-- The timer repeats a FIN only when no data is left, so at the end of the stream. -/
theorem Sender.repeated (head : s.sndBuf.headD [] = []) (pending : s.pendingFlags.fin = true) :
    FinAfter base stream s.state.mode (buildSegment net env s s.sndUna s.pendingFlags []) := by
  obtain ⟨mode, solid⟩ := inv.fin pending
  have bytes : s.sndBuf.flatten = stream.drop a := inv.bytes
  have empty : s.sndBuf = [] := by
    by_contra buffered
    have short : a < stream.length := inv.buffered buffered
    rw [solid.flatten head, eq_comm, List.drop_eq_nil_iff] at bytes
    omega
  have all := inv.empty empty
  exact ⟨rfl, by rw [← all]; exact inv.una, mode⟩

theorem Emits.sender {sent : Option (Segment × Frame)} (emits : Emits net env cur s sent) :
    Sender base stream got (out ++ (sent.map (·.1)).toList) ⟨s, (sent.map (·.2)).toList ++ below⟩ a n ∧
      ∀ seg frame, sent = some (seg, frame) → SentOk base stream got s.state.mode seg := by
  have bare {seg : Segment} {frame : Frame} (notLoop : frame.looping = false) (empty : seg.payload = [])
      (fin : seg.flags.fin = true → FinAfter base stream s.state.mode seg) :
      Sender base stream got (out ++ [seg]) ⟨s, frame :: below⟩ a n ∧
        ∀ seg' frame', some (seg, frame) = some (seg', frame') → SentOk base stream got s.state.mode seg' := by
    refine ⟨inv.push notLoop fun _ carries => absurd empty carries, ?_⟩
    intro seg' frame' same
    cases same
    exact ⟨.of_empty empty, fin⟩
  cases emits with
  | nothing =>
    rw [Option.map_none, Option.toList_none, append_nil]
    exact ⟨inv, fun _ _ none => by cases none⟩
  | bare _ follows => exact bare (not_looping (.inl follows.tail)) rfl fun fin => by cases fin
  | again buffered follows =>
    obtain ⟨carries, behind⟩ := inv.again net env buffered
    refine ⟨inv.push (not_looping (.inl follows.tail)) behind, ?_⟩
    intro seg frame same
    cases same
    exact ⟨carries, fun fin => by cases fin⟩
  | repeated _ head => exact bare rfl rfl fun fin => inv.repeated head fin
  | reset flags empty _ kind =>
    refine bare (not_looping (kind.imp_right And.left)) empty fun fin => ?_
    rw [flags] at fin
    cases fin

theorem Deliver.sender (pass : Deliver net env cur s res) :
    Sender base stream got (out ++ res.segments) (res.conf below) a n ∧
      ∀ seg ∈ res.segments, SentOk base stream got res.tcb.state.mode seg := by
  have held := inv.held pass.held
  cases pass with
  | run _ _ emits =>
    obtain ⟨inv', sent⟩ := emits.sender held
    refine ⟨inv', fun seg member => ?_⟩
    obtain ⟨frame, same⟩ := mem_segments member
    exact sent seg frame same
  | @fin _ _ _ _ sent _ _ _ _ _ finish =>
    rcases sent with _ | ⟨ack, frame⟩
    · rw [Res.segments, Option.map_none, Option.toList_none, append_nil]
      exact ⟨held, fun _ member => by cases member⟩
    · obtain ⟨rfl, rfl⟩ := finish ack frame rfl
      refine ⟨held.push rfl fun _ carries => absurd rfl carries, fun seg member => ?_⟩
      rw [List.mem_singleton.mp member]
      exact ⟨.of_empty rfl, fun fin => by cases fin⟩

/-- The place from which the send loop reads is snd_nxt, and it lies inside the stream. -/
theorem Sender.fresh {data : List Byte} (chunk : Chunk s data) (window : s.sndWnd.toNat < 2 ^ 30)
    (small : stream.length < 2 ^ 31) (room : n ≤ stream.length) :
    s.sndBufSeq = pos base a ∧ data <+: stream.drop n ∧ n + data.length ≤ stream.length := by
  have short := inv.buffered chunk.buffered
  have una : s.sndUna = pos base a := inv.una
  have nxt : s.sndNxt = pos base n := inv.nxt
  have near : (s.sndNxt - s.sndUna).toNat < 2 ^ 30 := Nat.lt_trans chunk.window window
  have order : a ≤ n := by
    -- Otherwise snd_nxt - snd_una wraps and no window is that large.
    by_contra crossed
    have signed := toInt_pos base (j := a) (k := n) (by omega) (by omega)
    rw [← una, ← nxt, BitVec.toInt_eq_toNat_of_lt (by omega)] at signed
    omega
  have aligned : s.sndBufSeq = pos base a := by
    refine (inv.start chunk.buffered).resolve_right fun lag => ?_
    have behind := lag.behind
    omega
  have sent : (s.sndNxt - s.sndBufSeq).toNat = n - a := by
    rw [aligned, nxt]
    exact dist_pos base order (by omega)
  obtain ⟨want, gathered⟩ := chunk.gathered
  have front : data <+: stream.drop n := by
    rw [gathered, gather_eq, inv.bytes, sent, List.drop_drop, Nat.add_sub_cancel' order]
    exact List.take_prefix _ _
  have length := front.length_le
  rw [length_drop] at length
  exact ⟨aligned, front, by omega⟩

theorem Pass.sender (pass : Pass net env cur s res) (shape : Shape ⟨s, below⟩) (window : s.sndWnd.toNat < 2 ^ 30)
    (small : stream.length < 2 ^ 31) (room : s.state.mode = .dead → n ≤ stream.length) :
    Sender base stream got (out ++ res.segments) (res.conf below) a n ∧
      ∀ seg ∈ res.segments, SentOk base stream got res.tcb.state.mode seg := by
  cases pass with
  | deliver pass => exact pass.sender inv
  | fresh _ idle mode chunk =>
    have spec := trySendChunk_spec chunk
    have none : gathered below = 0 := gathered_of_loops (by simpa [idle] using shape.loop)
    have inside : n ≤ stream.length := by
      rcases mode with sending | dead
      · have counted := inv.room (.inl sending)
        omega
      · exact room dead
    obtain ⟨aligned, front, fits⟩ := inv.fresh spec window small inside
    constructor
    · exact
      { inv with
        room := fun _ => by
          show n + (_ + gathered below) ≤ stream.length
          rw [none]
          exact fits
        start := fun _ => .inl aligned }
    · intro seg member
      rw [List.mem_singleton.mp member]
      exact ⟨.of_place inv.nxt front, fun fin => by cases fin⟩

/-- An acknowledgement of what the receiver has moves snd_una to that place. -/
theorem Sender.ack {k : Nat} (acked : Acked s (pos base k) s') (mode : s.state.mode = .sending ∨ s.state.mode = .ended)
    (have_ : k ≤ got) (all : got ≤ stream.length) (small : stream.length < 2 ^ 31)
    (ahead : 0 < (pos base k - s.sndUna).toInt) : Sender base stream got out ⟨s', below⟩ k n := by
  have una : s.sndUna = pos base a := inv.una
  have order : a < k := by
    have behind := inv.acked
    rw [una, toInt_pos base (by omega) (by omega)] at ahead
    omega
  have taken : (pos base k - s.sndUna).toNat = k - a := by
    rw [una]
    exact dist_pos base (by omega) (by omega)
  have buffered : s.sndBuf ≠ [] := by
    intro empty
    have done := inv.empty empty
    omega
  have aligned : s.sndBufSeq = pos base a := by
    refine (inv.start buffered).resolve_right fun lag => ?_
    have stuck := lag.stuck
    omega
  have bytes : s.sndBuf.flatten = stream.drop a := inv.bytes
  have length : s.bufLen.toNat = stream.length - a := by
    rw [Tcb.bufLen, BitVec.toNat_ofNat, size_eq, bytes, length_drop]
    omega
  have still : s'.state.mode = .sending ∨ s'.state.mode = .ended ∨ s'.state.mode = .dead := by
    rw [acked.state]
    exact mode.imp_right .inl
  have room : s'.state.mode = .sending ∨ s'.inSend = true → n + gathered below ≤ stream.length := by
    rw [acked.state, acked.inSend]
    exact inv.room
  rcases acked.buf with ⟨empty, -⟩ | ⟨-, whole, none⟩ | ⟨-, part, trimmed, moved⟩
  · exact absurd empty buffered
  · rw [BitVec.le_def] at whole
    have last : k = stream.length := by omega
    refine ⟨acked.una, acked.nxt.trans inv.nxt, have_, still, room, ?_, fun _ => last, ?_, ?_, ?_⟩
    · rw [none, last, List.drop_length, List.flatten_nil]
    · exact fun some => absurd none some
    · exact fun some => absurd none some
    · rw [acked.pending, acked.state, none]
      exact fun pending => ⟨(inv.fin pending).1, trivial⟩
  · rw [BitVec.lt_def] at part
    have left : k < stream.length := by omega
    have kept : s'.sndBuf.flatten = stream.drop k := by
      rw [trimmed, trim_flatten, bytes, List.drop_drop]
      congr 1
      omega
    refine ⟨acked.una, acked.nxt.trans inv.nxt, have_, still, room, kept, ?_, fun _ => left, fun _ => .inl ?_, ?_⟩
    · intro empty
      rw [show s'.sndBuf = [] from empty, List.flatten_nil, eq_comm, List.drop_eq_nil_iff] at kept
      omega
    · grind
    · rw [acked.pending, acked.state]
      intro pending
      obtain ⟨mode, solid⟩ := inv.fin pending
      refine ⟨mode, ?_⟩
      rw [show (Conf.mk s' below).tcb.sndBuf = _ from trimmed]
      exact solid.trim _

end

theorem trySendCount_pending (env : Env) (s : Tcb) (k : Nat) : (trySendCount env s k).pendingFlags = s.pendingFlags ∨
    (trySendCount env s k).pendingFlags = flagAckPsh := by
  rw [trySendCount]
  split
  · exact .inr rfl
  · exact .inl rfl

/-- ip_send returned to the send loop: snd_nxt moves over the bytes handed over. -/
theorem Sender.count {k : Nat} {after : After} (env : Env)
    (inv : Sender base stream got out ⟨s, .trySend k after :: below⟩ a n)
    (shape : Shape ⟨s, .trySend k after :: below⟩) :
    Sender base stream got out ⟨(trySendCount env s k).setInSend false, below⟩ a (n + k) := by
  obtain ⟨busy, none⟩ := shape.busy
  have room : n + (k + gathered below) ≤ stream.length := inv.room (.inr busy)
  have pending := trySendCount_pending env s k
  obtain ⟨_, _, _, flags, _, eq⟩ := trySendCount_eq env s k
  rw [eq] at pending ⊢
  refine ⟨inv.una, ?_, inv.acked, inv.mode, fun _ => ?_, inv.bytes, inv.empty, inv.buffered, fun some => .inl ?_, ?_⟩
  · show s.sndNxt + BitVec.ofNat 32 k = pos base (n + k)
    rw [show s.sndNxt = pos base n from inv.nxt, pos_add]
  · show n + k + gathered below ≤ stream.length
    omega
  · -- A queue that lags has no send pending.
    refine (inv.start some).resolve_right fun lag => ?_
    rw [show s.inSend = false from lag.idle] at busy
    cases busy
  · rcases pending with same | psh
    · rw [show flags = s.pendingFlags from same]
      exact inv.fin
    · rw [show flags = flagAckPsh from psh]
      exact fun fin => by cases fin

section

variable (inv : Sender base stream got out ⟨s, []⟩ a n)
include inv

/-- New data joins the stream and the queue. On an empty queue that snd_una has passed, it lags. -/
theorem Sender.append (payload : Chain Byte) (mode : s.state.mode = .sending) (idle : s.inSend = false)
    (carries : size payload ≠ 0) (all : got ≤ stream.length) (sent : ∀ seg ∈ out, Carries base stream got seg) :
    Sender base (stream ++ payload.flatten) got out ⟨appendBuf s payload, []⟩ a n := by
  have acked := inv.acked
  have room : n + 0 ≤ stream.length := inv.room (.inl mode)
  have longer : 0 < payload.flatten.length := by
    rw [← size_eq]
    omega
  have some : payload ≠ [] := by
    rintro rfl
    exact carries rfl
  rw [appendBuf_eq]
  refine ⟨inv.una, inv.nxt, acked, inv.mode, fun _ => ?_, ?_, ?_, fun _ => ?_, fun _ => ?_, ?_⟩
  · show n + 0 ≤ (stream ++ payload.flatten).length
    rw [length_append]
    omega
  · rw [List.flatten_append, List.drop_append_of_le_length (by omega)]
    rw [show s.sndBuf.flatten = _ from inv.bytes]
  · intro empty
    exact absurd (List.append_eq_nil_iff.mp empty).2 some
  · rw [length_append]
    omega
  · by_cases empty : s.sndBuf = []
    · have done : a = stream.length := inv.empty empty
      rcases Nat.lt_or_ge n a with behind | reached
      · refine .inr ⟨?_, behind, by omega, idle, fun seg member nonempty => ?_⟩
        · rw [if_pos empty]
          exact inv.nxt
        · obtain ⟨o, seq, place⟩ := sent seg member nonempty
          have positive := List.length_pos_iff.mpr nonempty
          exact ⟨o, seq, by omega⟩
      · left
        rw [if_pos empty, show a = n by omega]
        exact inv.nxt
    · rw [if_neg empty]
      refine (inv.start empty).imp_right fun lag => ?_
      exact ⟨lag.bufSeq, lag.behind, lag.stuck, idle, lag.out⟩
  · intro pending
    have ended := (inv.fin pending).1
    rw [show (Conf.mk s []).tcb.state.mode = _ from mode] at ended
    rcases ended with ended | ended <;> cases ended

-- T_ORDREL_REQ finds the whole queue sent, and no byte of it behind an empty block.
structure AllSent (s : Tcb) : Prop where
  empty : s.sndBuf = [] → s.sndUna = s.sndNxt
  buffered : s.sndBuf ≠ [] → s.sndNxt = s.sndBufSeq + s.bufLen
  solid : Solid s.sndBuf

instance (s : Tcb) : Decidable (AllSent s) :=
  decidable_of_iff ((s.sndBuf = [] → s.sndUna = s.sndNxt) ∧ (s.sndBuf ≠ [] → s.sndNxt = s.sndBufSeq + s.bufLen) ∧
    Solid s.sndBuf) ⟨fun ⟨empty, buffered, solid⟩ => ⟨empty, buffered, solid⟩, fun sent => ⟨sent.1, sent.2, sent.3⟩⟩

theorem Sender.allSent (mode : s.state.mode = .sending) (sent : AllSent s) (small : stream.length < 2 ^ 31) :
    n = stream.length := by
  have una : s.sndUna = pos base a := inv.una
  have nxt : s.sndNxt = pos base n := inv.nxt
  have room : n + 0 ≤ stream.length := inv.room (.inl mode)
  by_cases empty : s.sndBuf = []
  · have done : a = stream.length := inv.empty empty
    have same := sent.empty empty
    rw [una, nxt] at same
    have places := pos_inj (by omega) (by omega) same
    omega
  · have short : a < stream.length := inv.buffered empty
    have length : size s.sndBuf = stream.length - a := by
      rw [size_eq, show s.sndBuf.flatten = _ from inv.bytes, length_drop]
    have last := sent.buffered empty
    rcases inv.start empty with aligned | lag
    · rw [nxt, show s.sndBufSeq = _ from aligned, Tcb.bufLen, pos_add] at last
      have places := pos_inj (by omega) (by omega) last
      omega
    · rw [nxt, show s.sndBufSeq = _ from lag.bufSeq, Tcb.bufLen, pos_add] at last
      have places := pos_inj (by omega) (by omega) last
      omega

theorem Sender.close {state : TcpState} (control : Control net env (s.setState state) flagAckFin res)
    (mode : s.state.mode = .sending) (idle : s.inSend = false) (ended : state.mode = .ended) (sent : AllSent s)
    (small : stream.length < 2 ^ 31) :
    (∃ n', Sender base stream got (out ++ res.segments) (res.conf []) a n') ∧
      ∀ seg ∈ res.segments, SentOk base stream got res.tcb.state.mode seg := by
  have last := inv.allSent mode sent small
  have closed (s' : Tcb) (n' : Nat) (more : List Segment) (frames : List Frame)
      (una : s'.sndUna = s.sndUna) (nxt : s'.sndNxt = pos base n') (buf : s'.sndBuf = s.sndBuf)
      (bufSeq : s'.sndBufSeq = s.sndBufSeq) (inSend : s'.inSend = s.inSend) (mode' : s'.state.mode = .ended) :
      Sender base stream got (out ++ more) ⟨s', frames⟩ a n' := by
    refine ⟨una.trans inv.una, nxt, inv.acked, .inr (.inl mode'), ?_, ?_, ?_, ?_, ?_, fun _ => ⟨.inl mode', ?_⟩⟩
    · rw [mode', inSend, idle]
      rintro (sending | busy)
      · cases sending
      · cases busy
    · rw [buf]
      exact inv.bytes
    · rw [buf]
      exact inv.empty
    · rw [buf]
      exact inv.buffered
    · rw [buf, bufSeq]
      intro some
      refine .inl ((inv.start some).resolve_right fun lag => ?_)
      have behind := lag.behind
      have short : a < stream.length := inv.buffered some
      omega
    · rw [buf]
      exact sent.solid
  cases control with
  | skipped =>
    refine ⟨⟨n, ?_⟩, fun _ member => by cases member⟩
    exact closed _ n [] [] rfl inv.nxt rfl rfl rfl ended
  | counted taken =>
    have counted := countSegment_counted env (s.setState state) flagAckFin rfl
    have nxt : (countSegment env (s.setState state) flagAckFin []).sndNxt = pos base (n + 1) := by
      rw [counted.nxt, Tcb.setState_sndNxt, show s.sndNxt = _ from inv.nxt]
      exact pos_add base n 1
    have mode' : (countSegment env (s.setState state) flagAckFin []).state.mode = .ended := by
      exact ended
    rcases taken with rfl | rfl
    · refine ⟨⟨n + 1, ?_⟩, fun _ member => by cases member⟩
      exact closed _ _ [] [] counted.una nxt counted.buf counted.bufSeq counted.inSend mode'
    · refine ⟨⟨n + 1, ?_⟩, fun seg member => ?_⟩
      · exact closed _ _ _ _ counted.una nxt counted.buf counted.bufSeq counted.inSend mode'
      · rw [List.mem_singleton.mp member]
        exact ⟨.of_empty rfl, fun _ => ⟨rfl, by rw [← last]; exact inv.nxt, .inl mode'⟩⟩

end

end Sender

section Receiver

def Ind.bytes : Ind → List Byte
  | .dataInd bytes => bytes
  | _ => []

def bytes (ups : List Ind) : List Byte := ups.flatMap Ind.bytes

@[simp] theorem bytes_nil : bytes [] = [] := rfl

@[simp] theorem bytes_append (first second : List Ind) : bytes (first ++ second) = bytes first ++ bytes second :=
  List.flatMap_append

theorem bytes_plain {ups : List Ind} (plain : ∀ ind ∈ ups, ind.plain = true) : bytes ups = [] := by
  rw [bytes, List.flatMap_eq_nil_iff]
  intro ind member
  have kind := plain ind member
  cases ind <;> first | rfl | cases kind

variable {net : Interfaces} {env : Env} {cur : Option Segment} {base : Word} {stream got : List Byte}
  {s s' : Tcb} {seg : Segment} {ups : List Ind} {res : Res}

/-- In-order data extends what was delivered by the next bytes of the stream. -/
theorem Carries.next (carries : Carries base stream got.length seg) (nonempty : seg.payload ≠ [])
    (seq : seg.seq = pos base got.length) (delivered : got <+: stream) (small : stream.length < 2 ^ 31) :
    got ++ seg.payload <+: stream := by
  obtain ⟨o, at_o, place⟩ := carries nonempty
  have bound := delivered.length_le
  have here : got.length = o := pos_inj (by omega) (by omega) (seq.symm.trans at_o)
  obtain ⟨rest, rfl⟩ := delivered
  rcases place with ⟨_, front⟩ | stale
  · rw [← here, List.drop_left] at front
    exact (List.prefix_append_right_inj got).mpr front
  · omega

-- The receive half of a synchronised block: rcv_nxt is the place after what was delivered.
structure Receives (base : Word) (stream : List Byte) (got : List Byte) (s : Tcb) : Prop where
  delivered : got <+: stream
  rcv : s.rcvNxt = pos base got.length

section

variable (delivery : Recvs env cur s ups s')
include delivery

theorem Recvs.receives (alloc : env.alloc .dataInd = true)
    (small : stream.length < 2 ^ 31) (genuine : ∀ seg, cur = some seg → Carries base stream got.length seg)
    (inv : Receives base stream got s) : Receives base stream (got ++ bytes ups) s' := by
  induction delivery generalizing got with
  | done => rwa [bytes_nil, append_nil]
  | idle first _ ih => exact ih genuine ⟨inv.delivered, first.rcv.trans inv.rcv⟩
  | @data s s' ups seg at_hand nonempty inOrder _ _ ih =>
    have carries := genuine seg at_hand
    have more := carries.next nonempty (inOrder.trans inv.rcv) inv.delivered small
    have told : bytes (replyDataInd env seg.payload) = seg.payload := by
      rw [replyDataInd, if_pos alloc]
      exact append_nil _
    rw [bytes_append, told, ← List.append_assoc]
    apply ih
    · intro seg' same
      refine (genuine seg' same).mono ?_
      rw [length_append]
      omega
    · refine ⟨more, ?_⟩
      rw [Tcb.setRcvNxt_rcvNxt, inv.rcv, Segment.len, pos_add, length_append]

theorem Recvs.behind (small : stream.length < 2 ^ 31)
    (stale : ∀ seg, cur = some seg → Behind base got.length seg) (inv : Receives base stream got s) :
    bytes ups = [] := by
  induction delivery with
  | done => rfl
  | idle first _ ih => exact ih ⟨inv.delivered, first.rcv.trans inv.rcv⟩
  | @data s s' ups seg at_hand nonempty inOrder _ _ _ =>
    obtain ⟨o, at_o, behind⟩ := stale seg at_hand nonempty
    have bound := inv.delivered.length_le
    have here := pos_inj (by omega) (by omega) ((inOrder.trans inv.rcv).symm.trans at_o)
    omega

theorem Recvs.no_ordrel : Ind.ordrelInd ∉ ups := by
  induction delivery with
  | done => exact not_mem_nil
  | idle _ _ ih => exact ih
  | data _ _ _ _ _ ih =>
    rw [List.mem_append, not_or]
    refine ⟨?_, ih⟩
    rw [replyDataInd]
    split
    · exact fun member => by cases List.mem_singleton.mp member
    · exact not_mem_nil

end

theorem Emits.ack {frame : Frame} (emits : Emits net env cur s (some (seg, frame))) (flag : seg.flags.ack = true) :
    seg.ack = s.rcvNxt := by
  cases emits with
  | bare | again | repeated => rfl
  | reset flags =>
    rw [flags] at flag
    cases flag

theorem Emits.frame {frame : Frame} (emits : Emits net env cur s (some (seg, frame))) :
    (frame.cur = none ∨ frame.cur = cur) ∧ frame ≠ .finAck := by
  cases emits with
  | bare _ follows | again _ follows => exact ⟨follows.same, fun same => by cases same ▸ follows.tail⟩
  | repeated => exact ⟨.inl rfl, fun same => by cases same⟩
  | reset _ _ alone kind =>
    refine ⟨.inl alone, fun same => ?_⟩
    rw [same] at kind
    rcases kind with tail | ⟨other, -⟩
    · cases tail
    · cases other

-- What a pass of the receiver leaves: more of the stream, or the end of it with the peer's FIN taken.
inductive Heard (base : Word) (stream got : List Byte) (cur : Option Segment) (res : Res) : Prop where
  | more : Receives base stream (got ++ bytes res.ups) res.tcb →
      ((∀ seg, cur = some seg → Behind base got.length seg) → bytes res.ups = []) → Ind.ordrelInd ∉ res.ups →
      (∀ seg frame, res.sent = some (seg, frame) → (seg.flags.ack = true → seg.ack = res.tcb.rcvNxt) ∧
        (frame.cur = none ∨ frame.cur = cur) ∧ frame ≠ .finAck) → Heard base stream got cur res
  | finished {ups last : List Ind} {seg : Segment} : cur = some seg → seg.flags.fin = true → res.ups = ups ++ last →
      Ind.ordrelInd ∉ ups → stream <+: got ++ bytes ups → Heard base stream got cur res

section

variable {mode : Mode} (alloc : env.alloc .dataInd = true) (small : stream.length < 2 ^ 31)
  (genuine : ∀ seg, cur = some seg → SentOk base stream got.length mode seg)
include alloc small genuine

theorem Deliver.heard (pass : Deliver net env cur s res) (inv : Receives base stream got s) :
    Heard base stream got cur res := by
  cases pass with
  | @run s' ups last sent delivery plain emits =>
    have received := delivery.receives alloc small (fun seg same => (genuine seg same).carries) inv
    refine .more ?_ (fun stale => ?_) ?_ fun seg frame same => ?_
    · rwa [bytes_append, bytes_plain plain, append_nil]
    · rw [bytes_append, bytes_plain plain, append_nil]
      exact delivery.behind small stale inv
    · rw [List.mem_append, not_or]
      refine ⟨delivery.no_ordrel, fun member => ?_⟩
      cases plain _ member
    · cases same
      exact ⟨emits.ack, emits.frame⟩
  | @fin s' ups last seg sent delivery at_hand flag inOrder only _ =>
    have received := delivery.receives alloc small (fun seg same => (genuine seg same).carries) inv
    have finish := (genuine seg at_hand).fin flag
    have bound := received.delivered.length_le
    have reached : stream.length = (got ++ bytes ups).length := by
      rw [finish.seq, Segment.len, finish.bare, pos_add, received.rcv] at inOrder
      exact pos_inj (by omega) (by omega) inOrder
    refine .finished at_hand flag rfl delivery.no_ordrel ?_
    rw [received.delivered.eq_of_length reached.symm]

/-- New data going out leaves the receive half alone. -/
theorem Pass.heard (pass : Pass net env cur s res) (inv : Receives base stream got s) :
    Heard base stream got cur res := by
  cases pass with
  | deliver pass => exact pass.heard alloc small genuine inv
  | fresh same =>
    refine .more ?_ (fun _ => rfl) not_mem_nil fun seg frame sent => ?_
    · rw [bytes_nil, append_nil]
      exact ⟨inv.delivered, inv.rcv⟩
    · cases sent
      exact ⟨fun _ => rfl, .inr same, fun other => by cases other⟩

end

end Receiver

end Kappara.Tcp
