import Kappara.Tcp.Table

/-! Runs of all TCP streams together: opening and closing, binds, accepted
connections and the segments IP delivers (tcp_qopen, tcp_qclose,
handle_bind_req, handle_ip_ack and handle_conn_res of uts/os/net/tcp.c,
ip_handle_bind of uts/os/net/ipv4.c).

A segment may reach a bound stream at any moment and in any order with the other
copies of its datagram, which covers the nesting the loopback brings about. -/

set_option autoImplicit false

namespace Kappara.Tcp

open Net

def tcpBindKey (lport rport : Port) : BitVec 32 := lport.setWidth 32 <<< 16 ||| rport.setWidth 32

/-- What happens to the streams. A bind or an unbind is a message to IP that may find no memory, and so
may be the answer to a bind. -/
inductive SysMove where
  | openStream (id : Nat)
  | close (id : Nat) (told : Bool)
  | bind (id : Nat) (port : Port) (asked answered : Bool)
  | connRes (listener child : Nat) (iss : Word)
  | user (id : Nat) (e : Event)
  | deliver (q : Nat) (seg : Segment)
  | resume (id : Nat)
  | otherBind (upper : Upper)
  | otherUnbind (upper : Upper)
  deriving DecidableEq

/-- The primitives that concern one block only. -/
def Event.alone : Event → Bool
  | .bindReq _ _ => false
  | .connRes => false
  | .accept _ _ _ => false
  | _ => true

section

variable (net : Interfaces) (env : Env) (sys : System) (id : Nat)

/-- One pass of the block of a stream, and the segments it hands to IP. -/
def passAt (label : Label) : Option (System × List Segment) :=
  match sys.tcbs id with
  | none => none
  | some c =>
    match pass net env c label with
    | none => none
    | some (res, below) => some (sys.set id (res.conf below), res.segments)

def System.qopen : System :=
  { sys with tcbs := Function.update sys.tcbs id (some fresh), table := (sys.table.insert id).getD sys.table }

/-- The resets tcp_qclose sends: one for an unfinished connection, one for every SYN a listener has queued. -/
def closeResets (s : Tcb) : List Segment :=
  match s.state with
  | .synSent | .synReceived | .established | .finWait1 | .finWait2 | .closeWait | .lastAck =>
    (tcpSendSegment net env .control s flagRst []).2.toList
  | .listen =>
    (List.range s.pendingCount).filterMap fun k =>
      let entry := s.pendingQ (s.pendingHead + Fin.ofNat 8 k)
      (tcpSendSegment net env .control { s with remoteIp := entry.remoteIp, remotePort := entry.remotePort }
        flagRst []).2
  | _ => []

def System.qclose (s : Tcb) (told : Bool) : System where
  tcbs := Function.update sys.tcbs id none
  table := sys.table.remove id
  uppers := if s.bound && told then ipUnbind sys.uppers ⟨ipprotoTcp, tcpBindKey s.localPort 0#16, id⟩ else sys.uppers

/-- IP's table after a bind request, and what the stream hears of it. -/
def bindAt (uppers : Uppers) (upper : Upper) (asked answered : Bool) : Uppers × BindAnswer :=
  if asked then
    match ipBind uppers upper with
    | some uppers' => (uppers', if answered then .ack else .lost)
    | none => (uppers, if answered then .nak else .lost)
  else (uppers, .lost)

def System.bind (s : Tcb) (port : Port) (asked answered : Bool) : System :=
  if s.bound then sys
  else
    let outcome := bindAt sys.uppers ⟨ipprotoTcp, tcpBindKey port 0#16, id⟩ asked answered
    ⟨(sys.set id ⟨(handleBindReq env s port outcome.2).tcb, []⟩).tcbs, sys.table, outcome.1⟩

/-- tcp_accept_into: the head of the listener's backlog becomes the child's connection. -/
def System.acceptInto (listener child : Nat) (s t : Tcb) (iss : Word) :
    System × List Segment :=
  let res := acceptChild net env t s.localPort (popPending s).1 iss
  ((sys.set listener ⟨(popPending s).2, []⟩).set child (res.conf []), res.segments)

/-- The system after a move and the segments handed to IP; none where the move cannot be made. -/
def sysStep : SysMove → Option (System × List Segment)
  | .openStream id =>
    match sys.tcbs id with
    | none => some (sys.qopen id, [])
    | some _ => none
  | .close id told =>
    match sys.tcbs id with
    | some ⟨s, []⟩ => some (sys.qclose id s told, closeResets net env s)
    | _ => none
  | .bind id port asked answered =>
    match sys.tcbs id with
    | some ⟨s, []⟩ => some (sys.bind env id s port asked answered, [])
    | _ => none
  | .connRes listener child iss =>
    match sys.tcbs listener, sys.tcbs child with
    | some ⟨s, []⟩, some ⟨t, []⟩ =>
      -- The responding stream has to be in the table, another one than the listener, and CLOSED.
      if s.state = .listen ∧ 0 < s.pendingCount ∧ child ∈ sys.table.toList ∧ child ≠ listener ∧ t.state = .closed then
        some (sys.acceptInto net env listener child s t iss)
      else some (sys, [])
    | _, _ => none
  | .user id e => if e.alone then passAt net env sys id (.event e) else none
  | .deliver q seg =>
    if q ∈ ipDemux sys.uppers ipprotoTcp then
      match dispatch sys q seg with
      | .dropped => some (sys, [])
      | .refused rst => some (sys, [rst])
      | .handed id => passAt net env sys id (.arrive seg)
    else none
  | .resume id => passAt net env sys id .resume
  | .otherBind upper =>
    if upper.proto = ipprotoTcp then none
    else some ({ sys with uppers := (ipBind sys.uppers upper).getD sys.uppers }, [])
  | .otherUnbind upper =>
    if upper.proto = ipprotoTcp then none else some ({ sys with uppers := ipUnbind sys.uppers upper }, [])

end

def noStreams : System := ⟨fun _ => none, SlotTable.empty, SlotTable.empty⟩

/-- Systems reached from one without streams by moves that all satisfy ok. -/
inductive SysReach (net : Interfaces) (ok : System → SysMove → Bool) : System → Prop where
  | start : SysReach net ok noStreams
  | next {sys sys' : System} {env : Env} {move : SysMove} {sent : List Segment} : SysReach net ok sys →
      ok sys move = true → sysStep net env sys move = some (sys', sent) → SysReach net ok sys'

def sysRun (net : Interfaces) : System → List (Env × SysMove) → System
  | sys, [] => sys
  | sys, (env, move) :: rest => sysRun net (((sysStep net env sys move).map (·.1)).getD sys) rest

def SysRunOk (net : Interfaces) (ok : System → SysMove → Bool) : System → List (Env × SysMove) → Bool
  | _, [] => true
  | sys, (env, move) :: rest => ok sys move && SysRunOk net ok (((sysStep net env sys move).map (·.1)).getD sys) rest

theorem SysReach.run {net : Interfaces} {ok : System → SysMove → Bool} {sys : System} (moves : List (Env × SysMove))
    (reached : SysReach net ok sys) (all : SysRunOk net ok sys moves = true) :
    SysReach net ok (sysRun net sys moves) := by
  induction moves generalizing sys with
  | nil => exact reached
  | cons step rest ih =>
    obtain ⟨env, move⟩ := step
    rw [SysRunOk, Bool.and_eq_true] at all
    apply ih _ all.2
    cases made : sysStep net env sys move with
    | none => exact reached
    | some result => exact .next reached all.1 made

end Kappara.Tcp
