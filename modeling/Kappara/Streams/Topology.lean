import Kappara.Lib.Run

/-! Which queues refer to which (stream_build, do_ipush, do_ipop, stream_ilink,
stream_iunlink, stream_close and sys_pipe_impl of uts/os/io/stream_head.c; the
link and bind tables of uts/os/net/ipv4.c; qenable and streams_run of
uts/os/io/streams.c).

Queues are allocated and freed in pairs, a read and a write side, and a pair is
known by a number that is not used again. A stream is known by the pair of its
head. The q_next of write sides are changed by push and pop alone: they are the
list of the pairs pushed, from the head down, and the driver. The q_next of read
sides, which linking diverts, are kept one by one. In a pipe both directions are
the list. -/

set_option autoImplicit false

namespace Kappara.Topology

open Function (update)

structure Device where
  mods : List Nat
  drv : Nat
  ip : Bool
  refs : Nat

def Device.pairs (D : Device) (h : Nat) : List Nat := h :: (D.mods ++ [D.drv])

def Device.top (D : Device) : Nat :=
  match D.mods with
  | [] => D.drv
  | m :: _ => m

/-- The heads of the two ends, the modules between them from a to b, and which ends are open. -/
structure Pipe where
  a : Nat
  b : Nat
  mods : List Nat
  openA : Bool
  openB : Bool

/-- stream_close frees the pair of a head, and of a pipe no other. -/
def Pipe.pairs (P : Pipe) : List Nat := (if P.openA then [P.a] else []) ++ P.mods ++ if P.openB then [P.b] else []

/-- An entry of muxtab; the two queues are read sides. -/
structure Muxlink where
  upper : Nat
  lower : Nat
  rewired : Nat
  saved : Nat

structure Upper where
  proto : Nat
  key : Nat
  rq : Nat
  deriving DecidableEq

/-- Besides the streams: the read sides' q_next, the mux table, IP's tables (a lower has its muxid and
the head whose write side is qbot) and the run queue of each CPU, with the side of each pair on it. -/
structure State where
  fresh : Nat
  devices : Nat → Option Device
  pipes : Nat → Option Pipe
  up : Nat → Option Nat
  mux : Fin 16 → Option Muxlink
  lowers : Fin 4 → Option (Fin 16 × Nat)
  uppers : Fin 16 → Option Upper
  runq : Fin 4 → List (Nat × Bool)

variable (s : State) (i : Nat) (P : Pipe) (fromA : Bool) (h : Nat) (D : Device)

def streamBuild (ip : Bool) : State :=
  let h := s.fresh
  let d := s.fresh + 1
  { s with
    fresh := s.fresh + 2
    devices := update s.devices h (some ⟨[], d, ip, 1⟩)
    up := update (update s.up h none) d (some h) }

/-- The last close of a stream that is not a pipe; the qclose routines have run. -/
def streamClose : State :=
  if 1 < D.refs then { s with devices := update s.devices h (some { D with refs := D.refs - 1 }) }
  else { s with devices := update s.devices h none }

def doIpush : State :=
  let m := s.fresh
  { s with
    fresh := s.fresh + 1
    devices := update s.devices h (some { D with mods := m :: D.mods })
    up := update (update s.up D.top (some m)) m (some h) }

def doIpop : State :=
  match D.mods with
  | [] => s
  | _ :: rest =>
    let D := { D with mods := rest }
    { s with devices := update s.devices h (some D), up := update s.up D.top (some h) }

def allocMuxid : Option (Fin 16) := (List.finRange 16).find? fun i => (s.mux i).isNone

/-- The walk of lower_top_rq from q: the queue below the head, NULL, or no end. -/
def lowerTopRq (up : Nat → Option Nat) (head : Nat) : Nat → Nat → Option (Option Nat)
  | 0, _ => none
  | fuel + 1, q =>
    match up q with
    | none => some none
    | some t => if t = head then some (some q) else lowerTopRq up head fuel t

/-- stream_ilink once M_IOCTL has come to an ip driver and been answered. A walk longer than there are
pairs does not end, and the call does not return. -/
def streamIlink (u : Nat) (U : Device) (l : Nat) (L : Device) : Option State :=
  match allocMuxid s with
  | none => some s
  | some i =>
    match (List.finRange 4).find? fun j => (s.lowers j).isNone with
    | none => some s
    | some j =>
      let s := { s with lowers := update s.lowers j (some (i, l)) }
      match lowerTopRq s.up l (s.fresh + 1) L.drv with
      | none => none
      -- The lower stream is linked already; what ip has recorded stays.
      | some none => some s
      | some (some q) =>
        some { s with
          up := update s.up q (some U.drv)
          mux := update s.mux i (some ⟨u, l, q, l⟩) }

def streamIunlink (i : Fin 16) (M : Muxlink) : State :=
  match (List.finRange 4).find? fun j => (s.lowers j).any (·.1 = i) with
  | none => s
  | some j =>
    { s with
      lowers := update s.lowers j none
      up := update s.up M.rewired (some M.saved)
      mux := update s.mux i none }

def ipBind (entry : Upper) : State :=
  if (List.finRange 16).any fun j => s.uppers j = some entry then s
  else
    match (List.finRange 16).find? fun j => (s.uppers j).isNone with
    | none => s
    | some j => { s with uppers := update s.uppers j (some entry) }

def ipUnbind (entry : Upper) : State :=
  match (List.finRange 16).find? fun j => s.uppers j = some entry with
  | none => s
  | some j => { s with uppers := update s.uppers j none }

/-- QENAB is set for a queue on a run queue. -/
def qenable (c : Fin 4) (q : Nat × Bool) : State :=
  if (List.finRange 4).any fun c => q ∈ s.runq c then s
  else { s with runq := update s.runq c (s.runq c ++ [q]) }

def streamsRun (c : Fin 4) : State := { s with runq := update s.runq c (s.runq c).tail }

def sysPipe : State :=
  { s with
    fresh := s.fresh + 2
    pipes := update s.pipes s.fresh (some ⟨s.fresh, s.fresh + 1, [], true, true⟩) }

/-- From end a a module is pushed and popped at the front, from end b at the back. -/
def pipePush : State :=
  let mods := if fromA then s.fresh :: P.mods else P.mods ++ [s.fresh]
  { s with fresh := s.fresh + 1, pipes := update s.pipes i (some { P with mods }) }

def Pipe.popped : Option (Nat × List Nat) :=
  if fromA then P.mods.head?.map (·, P.mods.tail) else P.mods.getLast?.map (·, P.mods.dropLast)

def pipePop : State :=
  match P.popped fromA with
  | none => s
  | some (_, mods) => { s with pipes := update s.pipes i (some { P with mods }) }

def pipeClose : State :=
  let P := { P with openA := P.openA && !fromA, openB := P.openB && fromA }
  { s with pipes := update s.pipes i (some P) }

/-- The calls, and what messages do on their way: a bind or unbind request that reaches an ip driver
(icmp sends one when it is pushed, and one from its qclose), a put procedure that enables a queue, a
service procedure that is run. -/
inductive Op where
  | open_ (ip : Bool)
  | share (h : Nat)
  | close (h : Nat)
  | push (h : Nat)
  | pop (h : Nat)
  | link (u l : Nat) (answered : Bool)
  | unlink (u : Nat) (i : Fin 16) (answered : Bool)
  | bind (h : Nat) (proto key : Nat)
  | unbind (h : Nat) (proto key : Nat)
  | enable (c : Fin 4) (h : Nat) (q : Nat × Bool)
  | pipe
  | pipePush (i : Nat) (fromA : Bool)
  | pipePop (i : Nat) (fromA : Bool)
  | pipeClose (i : Nat) (fromA : Bool)
  | pipeEnable (c : Fin 4) (i : Nat) (q : Nat × Bool)
  | run (c : Fin 4)

def State.onDevice (f : Device → Option State) : Option State := (s.devices h).bind f

def State.onPipe (f : Pipe → Option State) : Option State := (s.pipes i).bind f

def step : Op → Option State
  | .open_ ip => some (streamBuild s ip)
  | .share h => s.onDevice h fun D => some { s with devices := update s.devices h (some { D with refs := D.refs + 1 }) }
  | .close h => s.onDevice h fun D => some (streamClose s h D)
  | .push h => s.onDevice h fun D => some (doIpush s h D)
  | .pop h => s.onDevice h fun D => some (doIpop s h D)
  | .link u l answered => s.onDevice u fun U => s.onDevice l fun L =>
      if u ≠ l ∧ U.ip ∧ answered then streamIlink s u U l L else some s
  | .unlink u i answered => s.onDevice u fun _ =>
      match s.mux i with
      | none => some s
      | some M => if M.upper = u ∧ answered then some (streamIunlink s i M) else some s
  | .bind h proto key => s.onDevice h fun D =>
      match s.up D.drv with
      | none => some s
      | some rq => some (if D.ip then ipBind s ⟨proto, key, rq⟩ else s)
  | .unbind h proto key => s.onDevice h fun D =>
      match s.up D.drv with
      | none => some s
      | some rq => some (if D.ip then ipUnbind s ⟨proto, key, rq⟩ else s)
  | .enable c h q => s.onDevice h fun D => if q.1 ∈ D.pairs h then some (qenable s c q) else none
  | .pipe => some (sysPipe s)
  | .pipePush i fromA => s.onPipe i fun P => some (pipePush s i P fromA)
  | .pipePop i fromA => s.onPipe i fun P => some (pipePop s i P fromA)
  | .pipeClose i fromA => s.onPipe i fun P => some (pipeClose s i P fromA)
  | .pipeEnable c i q => s.onPipe i fun P => if q.1 ∈ P.pairs then some (qenable s c q) else none
  | .run c => some (streamsRun s c)

def Held (n : Nat) : Prop := ∃ h D, s.devices h = some D ∧ n ∈ D.pairs h

def Live (n : Nat) : Prop := Held s n ∨ ∃ i P, s.pipes i = some P ∧ n ∈ P.pairs

/-- No queue pointer leads to a freed pair. In a pipe the pointer to a head is in the module next to it
or in the other head. -/
structure NoDangling (s : State) : Prop where
  next : ∀ h D n t, s.devices h = some D → n ∈ D.pairs h → s.up n = some t → Live s t
  pipe : ∀ i P, s.pipes i = some P →
    (P.openB = true ∨ P.mods ≠ [] → P.openA = true) ∧ (P.openA = true ∨ P.mods ≠ [] → P.openB = true)
  mux : ∀ i M, s.mux i = some M → Live s M.rewired ∧ Live s M.saved
  lowers : ∀ j i h, s.lowers j = some (i, h) → Live s h
  uppers : ∀ j entry, s.uppers j = some entry → Live s entry.rq
  runq : ∀ c q, q ∈ s.runq c → Live s q.1

/-- A module's pair is in no table. -/
def Unused (m : Nat) : Prop :=
  (∀ i, ∀ M ∈ s.mux i, M.rewired ≠ m) ∧ (∀ j, ∀ entry ∈ s.uppers j, entry.rq ≠ m) ∧ ∀ c, ∀ q ∈ s.runq c, q.1 ≠ m

/-- The stream is the lower of no link, not in IP's lowers, and no stream is diverted into it; none of
its pairs is in another table. -/
def Alone : Prop :=
  (∀ i, ∀ M ∈ s.mux i, M.lower ≠ h ∧ (M.upper = h → s.up M.rewired ≠ some D.drv)) ∧
  (∀ j, ∀ entry ∈ s.lowers j, entry.2 ≠ h) ∧ ∀ m ∈ D.pairs h, Unused s m

/-- The condition: a module is popped while unused; a stream is closed for the last time while alone;
an end of a pipe is not closed while the other is open. -/
def Careful : Op → Prop
  | .pop h => ∀ D ∈ s.devices h, ∀ m ∈ D.mods.head?, Unused s m
  | .close h => ∀ D ∈ s.devices h, D.refs ≤ 1 → Alone s h D
  | .pipePop i fromA => ∀ P ∈ s.pipes i, ∀ m ∈ P.popped fromA, Unused s m.1
  | .pipeClose i fromA => ∀ P ∈ s.pipes i, (if fromA then P.openB else P.openA) = false
  | _ => True

def boot : State := ⟨0, fun _ => none, fun _ => none, fun _ => none, fun _ => none, fun _ => none, fun _ => none,
    fun _ => []⟩

def Booted : Prop := s = boot

end Kappara.Topology
