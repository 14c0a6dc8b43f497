import Kappara.Tcp.Direction

/-! Two blocks connected to each other over a lossy network.

The network keeps every segment the two have emitted and may deliver any of
them at any time, as often as it likes; it never invents one. Each block
carries one connection, opened by T_CONN_REQ or accepted from a SYN of the
other. -/

set_option autoImplicit false

namespace Kappara.Tcp

open BlockChain Net Serial

-- Two hosts, each with its own interfaces and its own condition on passes, taking them in any order.
inductive PairReach (netA netB : Interfaces) (okA okB : Host → Label → Prop) : Host → Host → Prop where
  | start : PairReach netA netB okA okB .opened .opened
  | left {a b : Host} {env : Env} {label : Label} {res : Res} {below : List Frame} : PairReach netA netB okA okB a b →
      Allowed a b env label → okA a label → pass netA env a.conf label = some (res, below) →
      PairReach netA netB okA okB (a.after label res below) b
  | right {a b : Host} {env : Env} {label : Label} {res : Res} {below : List Frame} : PairReach netA netB okA okB a b →
      Allowed b a env label → okB b label → pass netB env b.conf label = some (res, below) →
      PairReach netA netB okA okB a (b.after label res below)

-- T_ORDREL_REQ is issued when everything accepted was sent at least once and no byte stands behind an empty block.
def closesClean (h : Host) (label : Label) : Prop :=
  label = .event .ordrelReq → h.conf.tcb.state.mode = .sending → AllSent h.conf.tcb

section Reached

variable {netA netB : Interfaces} {okA okB : Host → Label → Prop} {a b : Host}

theorem PairReach.swap (reached : PairReach netA netB okA okB a b) : PairReach netB netA okB okA b a := by
  induction reached with
  | start => exact .start
  | left _ allowed ok ran ih => exact .right ih allowed ok ran
  | right _ allowed ok ran ih => exact .left ih allowed ok ran

theorem PairReach.hosts (reached : PairReach netA netB okA okB a b) :
    HostReach netA (fun _ _ _ => True) a ∧ HostReach netB (fun _ _ _ => True) b := by
  induction reached with
  | start => exact ⟨.start, .start⟩
  | left _ _ _ ran ih => exact ⟨.next ih.1 trivial ran, ih.2⟩
  | right _ _ _ ran ih => exact ⟨ih.1, .next ih.2 trivial ran⟩

theorem Dir.opened : Dir .opened .opened := by
  have reached : HostReach ⟨[], []⟩ (fun _ _ _ => True) .opened := .start
  have blank := reached.sound.blank rfl
  refine .of_silent ⟨blank.unopened, rfl, rfl, fun _ => rfl, ?_, ?_, ?_, ?_⟩ blank.mute List.not_mem_nil
  · exact fun started => (by cases started)
  · exact fun started => (by cases started)
  · exact fun _ member => (by cases member)
  · exact fun _ member => (by cases member)

/-- A direction stays in step up to the FIN of its sender, if the sender releases cleanly. -/
theorem PairReach.way (reached : PairReach netA netB okA okB a b)
    (clean : ∀ h label, okA h label → closesClean h label) : Dir a b ∨ Done a b := by
  induction reached with
  | start => exact .inl .opened
  | @left a b env label res below reached allowed ok ran ih =>
    have sound := reached.hosts.1.sound
    have step := pass_step sound.shape ran
    rcases ih with dir | done
    · exact .inl (dir.sends sound allowed (clean a label ok) step)
    · exact .inr (done.sends allowed step)
  | @right a b env label res below reached allowed ok ran ih =>
    have sound := reached.hosts.2.sound
    rcases ih with dir | done
    · exact dir.hears sound allowed (pass_step sound.shape ran)
    · exact .inr (done.hears sound allowed)

end Reached

section Runs

-- A move of one side: an event, the delivery of the i-th segment of the peer, or a return of ip_send.
inductive Move where
  | event (e : Event)
  | deliver (i : Nat)
  | resume
  deriving DecidableEq

def Move.label (peer : Host) : Move → Label
  | .event e => .event e
  | .deliver i =>
    match peer.out[i]? with
    | some seg => .arrive seg
    | none => .resume
  | .resume => .resume

instance (x y : Host) (label : Label) : Decidable (genuine x y label) :=
  match label with
  | .arrive _ => inferInstanceAs (Decidable (_ ∈ _))
  | .resume => inferInstanceAs (Decidable True)
  | .event e =>
    match e with
    | .connReq _ _ _ => inferInstanceAs (Decidable (_ → _))
    | .accept _ _ _ => inferInstanceAs (Decidable (_ → _ ∧ _))
    | .bindReq _ _ | .listenReq | .connRes | .dataReq _ | .ordrelReq | .disconReq | .drain | .tick _ =>
      inferInstanceAs (Decidable True)

section

variable (netA netB : Interfaces)

def pairNext (p : Host × Host) : Bool × Env × Move → Host × Host
  | (true, env, move) => (p.1.next netA (env, move.label p.2), p.2)
  | (false, env, move) => (p.1, p.2.next netB (env, move.label p.1))

def pairRun : Host × Host → List (Bool × Env × Move) → Host × Host
  | p, [] => p
  | p, step :: rest => pairRun (pairNext netA netB p step) rest

def SideOk (okA okB : Host → Label → Prop) (p : Host × Host) : Bool × Env × Move → Prop
  | (true, env, move) => Allowed p.1 p.2 env (move.label p.2) ∧ okA p.1 (move.label p.2)
  | (false, env, move) => Allowed p.2 p.1 env (move.label p.1) ∧ okB p.2 (move.label p.1)

def PairOk (okA okB : Host → Label → Prop) :
    Host × Host → List (Bool × Env × Move) → Prop
  | _, [] => True
  | p, step :: rest => SideOk okA okB p step ∧ PairOk okA okB (pairNext netA netB p step) rest

end

instance (x y : Host) (env : Env) (label : Label) : Decidable (Allowed x y env label) :=
  decidable_of_iff ((env.alloc .fresh && env.alloc .again && env.alloc .ackData && env.alloc .ackFin &&
    env.alloc .control && env.alloc .data && env.alloc .dataInd && env.alloc .ind) = true ∧ genuine x y label ∧
      (x.accepted ++ label.accepted x.conf.tcb).length < 2 ^ 31) (by
    constructor
    · rintro ⟨all, genuine, small⟩
      refine ⟨fun site => ?_, genuine, small⟩
      cases site <;> simp_all
    · rintro ⟨all, genuine, small⟩
      exact ⟨by simp [all], genuine, small⟩)

section Decidable

variable (netA netB : Interfaces) (okA okB : Host → Label → Prop)
  [(h : Host) → (label : Label) → Decidable (okA h label)] [(h : Host) → (label : Label) → Decidable (okB h label)]

instance (p : Host × Host) : (step : Bool × Env × Move) → Decidable (SideOk okA okB p step)
  | (true, _, _) => inferInstanceAs (Decidable (_ ∧ _))
  | (false, _, _) => inferInstanceAs (Decidable (_ ∧ _))

instance PairOk.decidable :
    (p : Host × Host) → (steps : List (Bool × Env × Move)) → Decidable (PairOk netA netB okA okB p steps)
  | _, [] => inferInstanceAs (Decidable True)
  | p, step :: rest =>
    have := PairOk.decidable (pairNext netA netB p step) rest
    inferInstanceAs (Decidable (_ ∧ _))

end Decidable

variable {netA netB : Interfaces} {okA okB : Host → Label → Prop} {p : Host × Host}

theorem PairReach.run (steps : List (Bool × Env × Move)) (reached : PairReach netA netB okA okB p.1 p.2)
    (all : PairOk netA netB okA okB p steps) :
    PairReach netA netB okA okB (pairRun netA netB p steps).1 (pairRun netA netB p steps).2 := by
  induction steps generalizing p with
  | nil => exact reached
  | cons step rest ih =>
    obtain ⟨side, env, move⟩ := step
    refine ih ?_ all.2
    cases side with
    | true =>
      obtain ⟨allowed, fine⟩ := all.1
      simp only [pairNext, Host.next]
      split
      next res below ran => exact .left reached allowed fine ran
      · exact reached
    | false =>
      obtain ⟨allowed, fine⟩ := all.1
      simp only [pairNext, Host.next]
      split
      next res below ran => exact .right reached allowed fine ran
      · exact reached

def lanPeer : Interfaces :=
  let nif : Netif := ⟨0x0a000002#32, 0xffffff00#32, 0#32, 1500#32⟩
  ⟨[nif], [nif]⟩

/-- Nothing refused, and the given number of bytes still unread at the stream head. -/
def Env.reading (tick : Word) (queued : Nat) : Env := ⟨tick, queued, fun _ => true, fun _ => true⟩

/-- Port 7 of 10.0.0.1 connects to port 80 of 10.0.0.2, whose stream head holds the given backlog. -/
def connectLan (queued : Nat) : List (Bool × Env × Move) :=
  [(true, .calm 1#32, .event (.bindReq 7#16 .ack)),
   (true, .calm 1#32, .event (.connReq 0x0a000002#32 80#16 0#32)),
   (true, .calm 1#32, .resume),
   (false, .reading 1#32 queued, .event (.accept 80#16 ⟨0x0a000001#32, 7#16, 1460#16, 0#32, 0, false⟩ 1000#32)),
   (false, .reading 1#32 queued, .resume),
   (true, .calm 2#32, .deliver 0),
   (true, .calm 2#32, .resume),
   (false, .reading 2#32 queued, .deliver 1)]

end Runs

section Streaming

-- No FIN was sent and none is waiting for its timer.
structure NoFin (h : Host) : Prop where
  pending : h.conf.tcb.pendingFlags.fin = false
  out : ∀ seg ∈ h.out, seg.flags.fin = false

variable {net : Interfaces} {env : Env} {cur : Option Segment} {s : Tcb} {res : Res} {below : List Frame} {h : Host}
  {label : Label}

theorem Emits.noFin {seg : Segment} {frame : Frame} (emits : Emits net env cur s (some (seg, frame)))
    (pending : s.pendingFlags.fin = false) : seg.flags.fin = false := by
  cases emits with
  | bare | again => rfl
  | repeated => exact pending
  | reset flags =>
    rw [flags]
    rfl

theorem Pass.noFin (pass : Pass net env cur s res) (pending : s.pendingFlags.fin = false) :
    res.tcb.pendingFlags.fin = false ∧ ∀ seg ∈ res.segments, seg.flags.fin = false := by
  cases pass with
  | fresh =>
    refine ⟨pending, fun seg member => ?_⟩
    rw [List.mem_singleton.mp member]
    rfl
  | deliver pass =>
    have same := pass.held.pending
    refine ⟨by rw [same]; exact pending, fun seg member => ?_⟩
    obtain ⟨frame, emitted⟩ := mem_segments member
    cases pass with
    | run _ _ emits =>
      cases emitted
      exact emits.noFin (by rw [same]; exact pending)
    | fin _ _ _ _ _ finish =>
      rw [(finish seg frame emitted).2]
      rfl

theorem Settle.pending {seg : Segment} {s' : Tcb} (settled : Settle net env s seg s') :
    s'.pendingFlags = s.pendingFlags := by
  cases settled with
  | idle _ idle => exact idle.pending
  | ack => exact (ackAdvance_acked env (trackWindow s seg) seg.ack).pending
  | connect => exact (connectBlock_opened net env (trackWindow s seg) seg).pending
  | establish => exact (establishBlock_opened env (trackWindow s seg) seg).pending

theorem Control.noFin {flags : Flags} (control : Control net env s flags res) (one : flags.syn = !flags.fin)
    (bare : flags.fin = false) (pending : s.pendingFlags.fin = false) :
    res.tcb.pendingFlags.fin = false ∧ ∀ seg ∈ res.segments, seg.flags.fin = false := by
  constructor
  · rcases control.pending one with same | same
    · rw [same]
      exact pending
    · rw [same]
      exact bare
  · intro seg member
    rw [control.segment member]
    exact bare

/-- Only T_ORDREL_REQ brings a FIN about. -/
theorem Step.noFin {c : Conf} (step : Step net env c label res below) (open_ : label ≠ .event .ordrelReq)
    (pending : c.tcb.pendingFlags.fin = false) :
    res.tcb.pendingFlags.fin = false ∧ ∀ seg ∈ res.segments, seg.flags.fin = false := by
  cases step with
  | event _ handled =>
    cases handled with
    | deliver _ _ pass => exact (Pass.deliver pass).noFin pending
    | connReq _ control | accept _ control => exact control.noFin rfl rfl pending
    | dataReq _ _ _ pass => exact pass.noFin (by rw [appendBuf_eq]; exact pending)
    | ordrelReq => exact absurd rfl open_
  | arrive arrived =>
    cases arrived with
    | quiet idle => exact ⟨by rw [Res.ret, idle.pending]; exact pending, fun _ member => (by cases member)⟩
    | taken _ _ settled pass => exact pass.noFin (by rw [settled.pending]; exact pending)
  | resume _ resumed =>
    cases resumed with
    | deliver _ pass => exact (Pass.deliver pass).noFin pending
    | finAck => exact ⟨pending, fun _ member => (by cases member)⟩
    | @trySend n _ _ pass =>
      refine pass.noFin ?_
      rcases trySendCount_pending env c.tcb n with same | same
      · rw [Tcb.setInSend_pendingFlags, same]
        exact pending
      · rw [Tcb.setInSend_pendingFlags, same]
        rfl

theorem NoFin.next (noFin : NoFin h) (step : Step net env h.conf label res below) (open_ : label ≠ .event .ordrelReq) :
    NoFin (h.after label res below) := by
  obtain ⟨pending, fresh⟩ := step.noFin open_ noFin.pending
  refine ⟨pending, fun seg member => ?_⟩
  rcases List.mem_append.mp member with older | newest
  · split at older
    · cases older
    · exact noFin.out seg older
  · exact fresh seg newest

-- Neither an orderly nor an abortive release.
def streaming (_ : Host) (label : Label) : Prop := label ≠ .event .ordrelReq ∧ label ≠ .event .disconReq

instance (h : Host) (label : Label) : Decidable (streaming h label) := inferInstanceAs (Decidable (_ ∧ _))

variable {netA netB : Interfaces} {a b : Host}

theorem PairReach.noFin (reached : PairReach netA netB streaming streaming a b) : NoFin a ∧ NoFin b := by
  induction reached with
  | start => exact ⟨⟨rfl, fun _ member => (by cases member)⟩, ⟨rfl, fun _ member => (by cases member)⟩⟩
  | left reached _ ok ran ih => exact ⟨ih.1.next (pass_step reached.hosts.1.sound.shape ran) ok.1, ih.2⟩
  | right reached _ ok ran ih => exact ⟨ih.1, ih.2.next (pass_step reached.hosts.2.sound.shape ran) ok.1⟩

theorem Done.not_noFin {x y : Host} (done : Done x y) (noFin : NoFin x) : False := by
  obtain ⟨seg, member, flag⟩ := done.fin
  rw [noFin.out seg member] at flag
  cases flag

/-- Until one side releases the connection, each side has delivered a prefix of what the other accepted. -/
theorem delivered_is_front_of_accepted (netA netB : Interfaces) (a b : Host)
    (reached : PairReach netA netB streaming streaming a b) :
    b.delivered <+: a.accepted ∧ a.delivered <+: b.accepted := by
  have clean (h : Host) (label : Label) (ok : streaming h label) : closesClean h label := fun same => absurd same ok.1
  obtain ⟨noFinA, noFinB⟩ := reached.noFin
  constructor
  · rcases reached.way clean with dir | done
    · exact dir.got
    · exact (done.not_noFin noFinA).elim
  · rcases reached.swap.way clean with dir | done
    · exact dir.got
    · exact (done.not_noFin noFinB).elim

def oneOfTwo : List (Bool × Env × Move) := connectLan 0 ++
  [(true, .calm 3#32, .event (.dataReq ⟨[[1#8]], one_small⟩)),
   (true, .calm 3#32, .resume),
   (true, .calm 3#32, .event (.dataReq ⟨[[2#8]], two_small⟩)),
   (true, .calm 3#32, .resume),
   (false, .calm 4#32, .deliver 2),
   (false, .calm 4#32, .deliver 2)]

theorem delivered_is_front_of_accepted_lan :
    let p := pairRun lan lanPeer (.opened, .opened) oneOfTwo
    p.2.delivered = [1#8] ∧ p.1.accepted = [1#8, 2#8] ∧ p.2.delivered <+: p.1.accepted ∧
      p.1.delivered <+: p.2.accepted :=
  ⟨by decide +kernel, by decide +kernel, delivered_is_front_of_accepted lan lanPeer _ _
    (.run oneOfTwo .start (by decide +kernel))⟩

end Streaming

end Kappara.Tcp
