import Kappara.Tcp.Machine
import Kappara.Tcp.Wire

/-! The open TCP streams and the way a segment takes to a block (tcp_find_child
and the first part of tcp_input_segment of uts/os/net/tcp.c, ip_demux of
uts/os/net/ipv4.c).

IP hands a copy of every segment to every stream bound to TCP. A listener passes
what is not a SYN to the accepted connection it finds in the table of blocks;
every other stream keeps the copy if the port is its own. -/

set_option autoImplicit false

namespace Kappara.Tcp

open Net

abbrev tcpMaxTcbs : Nat := 32

/-- The open streams, each with its block and the ip_send calls pending on it, the table of blocks and
IP's table of binds. A stream that found the table of blocks full is open and not in it. -/
structure System where
  tcbs : Nat → Option Conf
  table : SlotTable tcpMaxTcbs Nat
  uppers : Uppers

variable (sys : System)

def System.set (id : Nat) (c : Conf) : System :=
  { sys with tcbs := Function.update sys.tcbs id (some c) }

@[simp] theorem System.set_self (sys : System) (id : Nat) (c : Conf) : (sys.set id c).tcbs id = some c :=
  Function.update_self ..

@[simp] theorem System.set_of_ne {sys : System} {id other : Nat} (c : Conf) (ne : other ≠ id) :
    (sys.set id c).tcbs other = sys.tcbs other :=
  Function.update_of_ne ne ..

def TcpState.synced : TcpState → Bool
  | .closed | .bound | .listen | .synSent => false
  | _ => true

def Tcb.connects (s : Tcb) (lport : Port) (rip : Ip) (rport : Port) : Bool :=
  s.localPort == lport && s.remoteIp == rip && s.remotePort == rport

def System.blockIs (test : Tcb → Bool) (id : Nat) : Bool :=
  match sys.tcbs id with
  | none => false
  | some c => test c.tcb

def tcpFindChild (lport : Port) (rip : Ip) (rport : Port) : Option Nat :=
  sys.table.toList.find? (sys.blockIs fun s => s.state.synced && s.connects lport rip rport)

def tcpPortHasListener (port : Port) : Bool :=
  sys.table.toList.any (sys.blockIs fun s => s.localPort == port && (s.state == .listen || s.state == .bound))

/-- The lowest port with a listener, 0 if there is none. -/
def tcpMinListenerPort : Port :=
  sys.table.toList.foldl (fun min id =>
    match sys.tcbs id with
    | none => min
    | some c => if c.tcb.state = .listen ∧ (min = 0#16 ∨ c.tcb.localPort < min) then c.tcb.localPort else min) 0#16

/-- What becomes of a segment at a stream: it is dropped, answered with a reset, or handed to the state
machine of a block. -/
inductive Verdict where
  | dropped
  | refused (rst : Segment)
  | handed (id : Nat)
  deriving DecidableEq

def dispatch (q : Nat) (seg : Segment) : Verdict :=
  match sys.tcbs q with
  | none => .dropped
  | some ⟨s, _⟩ =>
    if seg.dstPort ≠ s.localPort then
      -- A SYN for a port without a listener is refused by the listener with the lowest port.
      if seg.flags.syn ∧ !seg.flags.rst ∧ s.state = .listen ∧ s.localPort = tcpMinListenerPort sys ∧
          !tcpPortHasListener sys seg.dstPort then
        match tcpRstClosed seg with
        | none => .dropped
        | some rst => .refused rst
      else .dropped
    else if s.state = .listen ∧ !seg.flags.syn then
      match tcpFindChild sys s.localPort seg.srcIp seg.srcPort with
      | none => .dropped
      | some child => .handed child
    else .handed q

variable (net : Interfaces) (seg : Segment)

/-- The frames above the given height return one after the other. -/
inductive Unwinds (height : Nat) : Conf → Conf → Prop where
  | done {c : Conf} : c.stack.length = height → Unwinds height c c
  | resume {c c' : Conf} {env : Env} {res : Res} {below : List Frame} : height < c.stack.length →
      pass net env c .resume = some (res, below) → Unwinds height (res.conf below) c' → Unwinds height c c'

/-- A block takes a segment: the pass the segment starts and what follows its ip_send calls. -/
inductive Handles (c c' : Conf) : Prop where
  | intro (env : Env) : Unwinds net c.stack.length ((arrive net env c.tcb seg).conf c.stack) c' → Handles c c'

/-- The copies of a segment reach their streams one after the other. -/
inductive FansOut : List Nat → System → System → Prop where
  | done {sys : System} : FansOut [] sys sys
  | passed {q : Nat} {rest : List Nat} {sys sys' : System} : (∀ id, dispatch sys q seg ≠ .handed id) →
      FansOut rest sys sys' → FansOut (q :: rest) sys sys'
  | handed {q id : Nat} {c c' : Conf} {rest : List Nat} {sys sys' : System} : dispatch sys q seg = .handed id →
      sys.tcbs id = some c → Handles net seg c c' → FansOut rest (sys.set id c') sys' → FansOut (q :: rest) sys sys'

/-- A datagram is processed: every bound stream gets a copy, except where memory for it was short. -/
inductive Processes (packet : Packet) (sys : System) : System → Prop where
  | dropped : packet.decode = none → Processes packet sys sys
  | taken {seg : Segment} {copies : List Nat} {sys' : System} : packet.decode = some seg →
      copies.Sublist (ipDemux sys.uppers ipprotoTcp) → FansOut net seg copies sys sys' → Processes packet sys sys'

end Kappara.Tcp
