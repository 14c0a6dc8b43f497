import Kappara.Kernel.StreamHead

/-! The way of an M_IOCTL through a stream (strioctl and sh_rq_putp of
uts/os/io/stream_head.c, and the put procedures of every registered module and
driver).

A stream is the modules pushed on it, from the head down, over a driver or the
other end of a pipe. One message is under way: a put procedure passes it on,
sends it back with putnext on OTHERQ(q), or frees it. -/

set_option autoImplicit false

namespace Kappara.Ioctl

open StreamHead (IoctlCmd strioctlPayloadSize termiosSize)

inductive MsgType where
  | ioctl
  | iocack
  | iocnak
  deriving DecidableEq

/-- The db_type, ic_cmd of the iocblk, and the size of the payload in b_cont. -/
structure Msg where
  type : MsgType
  icCmd : BitVec 32
  cont : Option Nat
  deriving DecidableEq

def tcgeta : BitVec 32 := 0x5401#32
def tcseta : BitVec 32 := 0x5402#32
def tcsetaw : BitVec 32 := 0x5403#32
def tcsetaf : BitVec 32 := 0x5404#32
def tcflsh : BitVec 32 := 0x5405#32

/-- An interface command: 'i' over its number. -/
def sioc (n : BitVec 8) : BitVec 32 := 0x6900#32 ||| n.setWidth 32

/-- The numbers of the commands; strioctl sends none of the others. -/
def icCmd : IoctlCmd → BitVec 32
  | .tcgeta => tcgeta
  | .tcseta => tcseta
  | .tcsetaw => tcsetaw
  | .tcsetaf => tcsetaf
  | .tcflsh => tcflsh
  | .siocsifaddr => sioc 12#8
  | .siocgifaddr => sioc 13#8
  | .siocsifnetmask => sioc 22#8
  | .siocgifnetmask => sioc 25#8
  | .siocsifgw => sioc 40#8
  | .siocgifgw => sioc 41#8
  | .siocgifhwaddr => sioc 42#8
  | .siocsifdns => sioc 43#8
  | .siocgifdns => sioc 44#8
  | .iPush => 1#32
  | .iPop => 2#32
  | .iLink => 4#32
  | .iUnlink => 5#32
  | .iSrdtmo => 6#32
  | .unknown => 0#32

/-- What a put procedure does with the message; srvp is a putq and qenable after which the service
procedure calls putnext. -/
inductive Action where
  | next (mp : Msg)
  | srvp (mp : Msg)
  | other (mp : Msg)
  | free

/-- The streamtabs of streams_register and cdev_register. The /proc drivers share their put procedures. -/
inductive Streamtab where
  | loop | null | console | klog | ksyms | upper | delay | fbcon | tty | ldterm
  | udp | tcp | icmp | pktfilter | slip | ip | dl | proc | procFtrace
  deriving DecidableEq

def uppercase (b : BitVec 8) : BitVec 8 := if 0x61#8 ≤ b ∧ b ≤ 0x7a#8 then b - 32#8 else b

section

variable (ifreq : Bool) (state : Bool) (mp : Msg)

/-- uppercase_mblk_chain does not look at the type: it changes the bytes of ic_cmd as well. -/
def uppercaseMblkChain : Msg :=
  { mp with icCmd := uppercase (mp.icCmd.extractLsb' 24 8) ++ uppercase (mp.icCmd.extractLsb' 16 8) ++
      uppercase (mp.icCmd.extractLsb' 8 8) ++ uppercase (mp.icCmd.extractLsb' 0 8) }

def ldtermIocAck (err : Bool) (len : Option Nat) : Msg :=
  { mp with type := if err then .iocnak else .iocack, cont := len }

/-- The answer to a command of ldterm's own; the iocblk is complete in what strioctl sends. -/
def ldtermHandleIoctl : Option Msg :=
  if mp.icCmd = tcgeta then some (ldtermIocAck mp false (some termiosSize))
  else if mp.icCmd = tcseta ∨ mp.icCmd = tcsetaw ∨ mp.icCmd = tcsetaf then
    some (ldtermIocAck mp (!mp.cont.any (termiosSize ≤ ·)) none)
  else if mp.icCmd = tcflsh then some (ldtermIocAck mp false none)
  else none

def ldtermWqPutp : Action :=
  if state && mp.type = .ioctl then
    match ldtermHandleIoctl mp with
    | some answer => .other answer
    | none => .next mp
  else .next mp

def ttyDrvWqPutp : Action :=
  if state && mp.type = .ioctl then .other { mp with type := .iocnak, cont := none } else .free

/-- The commands I_LINK and I_UNLINK are sent by stream_ilink and stream_iunlink only. ifreq is what
ip_handle_ifreq finds: the interface is there and the command known. -/
def ipWput : Action :=
  if mp.type = .ioctl then
    if mp.icCmd &&& 0xff00#32 = 0x6900#32 then .other { mp with type := if ifreq then .iocack else .iocnak }
    else .other { mp with type := .iocnak }
  else .free

/-- The write sides. The state is that q_ptr is set. -/
def wqPutp : Streamtab → Action
  | .loop => .other mp
  | .upper => .next (uppercaseMblkChain mp)
  | .delay => .srvp mp
  | .tty => ttyDrvWqPutp state mp
  | .ldterm => ldtermWqPutp state mp
  | .udp => if state && mp.type = .ioctl then .next mp else .free
  | .pktfilter => if state then .next mp else .free
  | .ip => ipWput ifreq mp
  -- fbcon has no put procedures, so that putnext frees; the others keep M_DATA or M_PROTO only.
  | .null | .console | .klog | .ksyms | .fbcon | .tcp | .icmp | .slip | .dl | .proc | .procFtrace => .free

def rqPutp : Streamtab → Action
  | .loop | .null | .console | .klog | .ksyms | .tty | .ldterm | .pktfilter | .dl | .proc | .procFtrace => .next mp
  | .upper => .next (uppercaseMblkChain mp)
  | .delay => .srvp mp
  | .udp => if state && (mp.type = .iocack || mp.type = .iocnak) then .next mp else .free
  | .fbcon | .tcp | .icmp | .slip | .ip => .free

end

/-- The names of streams_register. -/
inductive Module where
  | loop | null | console | klog | upper | delay | fbcon | tty | ldterm | udp | tcp | icmp | pktfilter | slip
  deriving DecidableEq

def Module.tab : Module → Streamtab
  | .loop => .loop
  | .null => .null
  | .console => .console
  | .klog => .klog
  | .upper => .upper
  | .delay => .delay
  | .fbcon => .fbcon
  | .tty => .tty
  | .ldterm => .ldterm
  | .udp => .udp
  | .tcp => .tcp
  | .icmp => .icmp
  | .pktfilter => .pktfilter
  | .slip => .slip

/-- The majors of cdev_register; icmp, udp and tcp are ip with a module pushed, and clone is null. -/
inductive Driver where
  | loop | null | console | klog | ksyms | upper | delay | fbcon | tty | ip | dl | proc | procFtrace
  deriving DecidableEq

def Driver.tab : Driver → Streamtab
  | .loop => .loop
  | .null => .null
  | .console => .console
  | .klog => .klog
  | .ksyms => .ksyms
  | .upper => .upper
  | .delay => .delay
  | .fbcon => .fbcon
  | .tty => .tty
  | .ip => .ip
  | .dl => .dl
  | .proc => .proc
  | .procFtrace => .procFtrace

structure Pushed where
  module : Module
  alloc : Bool
  deriving DecidableEq

/-- q_ptr after the qopen of do_ipush. tty finds no stdata there and leaves it NULL. -/
def Pushed.state (m : Pushed) : Bool :=
  match m.module with
  | .ldterm | .udp | .tcp | .icmp | .pktfilter | .slip => m.alloc
  | .loop | .null | .console | .klog | .upper | .delay | .fbcon | .tty => false

/-- Below the modules: a driver, or the modules and the head of the other end of the pipe. -/
inductive Bottom where
  | driver (d : Driver)
  | peer (modules : List Pushed)

/-- The answers that reached sh_rq_putp of the head, and the messages put on a data queue of a head. -/
structure Result where
  answers : Nat
  data : Nat
  deriving DecidableEq

/-- sh_rq_putp of the head that sent the ioctl. -/
def shRqPutp (mp : Msg) : Result :=
  match mp.type with
  | .iocack | .iocnak => ⟨1, 0⟩
  | .ioctl => ⟨0, 1⟩

/-- sh_rq_putp of the other head: an answer there is none to this one. -/
def peerRqPutp (mp : Msg) : Result :=
  match mp.type with
  | .iocack | .iocnak => ⟨0, 0⟩
  | .ioctl => ⟨0, 1⟩

/-- Through the read sides of the modules above, the nearest first; none of them turns a message round. -/
def rise (putp : Msg → Result) : List Pushed → Msg → Result
  | [], mp => putp mp
  | m :: above, mp =>
    match rqPutp m.state mp m.module.tab with
    | .next mp | .srvp mp => rise putp above mp
    | .other _ | .free => ⟨0, 0⟩

/-- At the bottom. The driver has no q_next on its write side, and its q_ptr is the stdata or its own. -/
def arrive (ifreq : Bool) (above : List Pushed) (mp : Msg) : Bottom → Result
  | .driver d =>
    match wqPutp ifreq true mp d.tab with
    | .other mp => rise shRqPutp above mp
    | .next _ | .srvp _ | .free => ⟨0, 0⟩
  | .peer modules => rise peerRqPutp modules.reverse mp

/-- Through the write sides of the modules below. -/
def fall (ifreq : Bool) (bottom : Bottom) : List Pushed → List Pushed → Msg → Result
  | above, [], mp => arrive ifreq above mp bottom
  | above, m :: below, mp =>
    match wqPutp ifreq m.state mp m.module.tab with
    | .next mp | .srvp mp => fall ifreq bottom (m :: above) below mp
    | .other mp => rise shRqPutp above mp
    | .free => ⟨0, 0⟩

/-- The M_IOCTL of strioctl for an accepted command with its payload. -/
def strioctl (ifreq : Bool) (modules : List Pushed) (bottom : Bottom) (cmd : IoctlCmd) (payload : Nat) : Result :=
  fall ifreq bottom [] modules ⟨.ioctl, icCmd cmd, if 0 < payload then some payload else none⟩

def terminal : IoctlCmd → Bool
  | .tcgeta | .tcseta | .tcsetaw | .tcsetaf | .tcflsh => true
  | _ => false

/-- A module that lets an M_IOCTL down and its answer up; ldterm, where it does not answer itself. -/
def Pushed.carries (m : Pushed) : Bool :=
  match m.module with
  | .upper | .delay | .ldterm => true
  | .udp | .pktfilter => m.alloc
  | .loop | .null | .console | .klog | .fbcon | .tty | .tcp | .icmp | .slip => false

structure Carried (cmd : IoctlCmd) (mp : Msg) : Prop where
  type : mp.type = .ioctl
  icCmd : mp.icCmd = Ioctl.icCmd cmd ∨ mp.icCmd = (uppercaseMblkChain ⟨.ioctl, Ioctl.icCmd cmd, none⟩).icCmd

section Ways

variable {ifreq : Bool} {cmd : IoctlCmd} {payload : Nat} {mp : Msg} {m : Pushed} {above : List Pushed}

theorem Carried.upper (carried : Carried cmd mp) : Carried cmd (uppercaseMblkChain mp) := by
  refine ⟨carried.type, .inr ?_⟩
  have once : ∀ cmd : IoctlCmd,
      (uppercaseMblkChain ⟨.ioctl, (uppercaseMblkChain ⟨.ioctl, Ioctl.icCmd cmd, none⟩).icCmd, none⟩).icCmd =
        (uppercaseMblkChain ⟨.ioctl, Ioctl.icCmd cmd, none⟩).icCmd := by
    intro cmd
    cases cmd <;> decide
  rcases carried.icCmd with same | same
  · rw [uppercaseMblkChain, same]
    rfl
  · rw [uppercaseMblkChain, same]
    exact once cmd

/-- Upper case makes no terminal command and unmakes none. -/
theorem Carried.terminal (carried : Carried cmd mp) (accepted : strioctlPayloadSize cmd = some payload) :
    (ldtermHandleIoctl mp).isSome = Ioctl.terminal cmd := by
  have known : (ldtermHandleIoctl mp).isSome = true ↔
      mp.icCmd = tcgeta ∨ (mp.icCmd = tcseta ∨ mp.icCmd = tcsetaw ∨ mp.icCmd = tcsetaf) ∨ mp.icCmd = tcflsh := by
    rw [ldtermHandleIoctl]
    split_ifs <;> simp_all
  rw [Bool.eq_iff_iff, known]
  rcases carried.icCmd with same | same <;> rw [same] <;> cases cmd <;> first | cases accepted; done | decide

theorem ldtermHandleIoctl_type {answer : Msg} (found : ldtermHandleIoctl mp = some answer) : answer.type ≠ .ioctl := by
  rw [ldtermHandleIoctl] at found
  split_ifs at found <;> cases found <;> rw [ldtermIocAck] <;> simp only <;> split <;> simp

theorem rise_answer (answer : mp.type ≠ .ioctl) (carry : ∀ m ∈ above, m.carries = true) :
    rise shRqPutp above mp = ⟨1, 0⟩ := by
  induction above generalizing mp with
  | nil =>
    rw [rise, shRqPutp]
    cases type : mp.type with
    | ioctl => exact absurd type answer
    | iocack | iocnak => rfl
  | cons m above ih =>
    obtain ⟨first, others⟩ := List.forall_mem_cons.mp carry
    obtain ⟨module, alloc⟩ := m
    rw [rise]
    cases module with
    | upper | delay | ldterm | pktfilter => exact ih answer others
    | udp =>
      have passed : rqPutp (Pushed.state ⟨.udp, alloc⟩) mp Module.udp.tab = .next mp := by
        have given : alloc = true := first
        show (if alloc && (mp.type = .iocack || mp.type = .iocnak) then Action.next mp else .free) = .next mp
        cases type : mp.type with
        | ioctl => exact absurd type answer
        | iocack | iocnak => simp [given]
      rw [passed]
      exact ih answer others
    | _ => cases first

/-- An M_IOCTL that is sent back answers nothing. -/
theorem rise_ioctl {putp : Msg → Result} (silent : ∀ mp : Msg, mp.type = .ioctl → (putp mp).answers = 0)
    (ioctl : mp.type = .ioctl) : (rise putp above mp).answers = 0 := by
  induction above generalizing mp with
  | nil => exact silent mp ioctl
  | cons m above ih =>
    obtain ⟨module, alloc⟩ := m
    rw [rise]
    cases module with
    | udp =>
      have freed : rqPutp (Pushed.state ⟨.udp, alloc⟩) mp Module.udp.tab = .free := by
        show (if alloc && (mp.type = .iocack || mp.type = .iocnak) then Action.next mp else .free) = .free
        simp [ioctl]
      rw [freed]
    | upper => exact ih ioctl
    | fbcon | tcp | icmp | slip => rfl
    | _ => exact ih ioctl

theorem shRqPutp_ioctl (mp : Msg) (ioctl : mp.type = .ioctl) : (shRqPutp mp).answers = 0 := by
  rw [shRqPutp, ioctl]

theorem peerRqPutp_ioctl (mp : Msg) (ioctl : mp.type = .ioctl) : (peerRqPutp mp).answers = 0 := by
  rw [peerRqPutp, ioctl]

def Bottom.answers : Bottom → Prop
  | .driver d => d = .tty ∨ d = .ip
  | .peer _ => False

theorem Result.unanswered {r : Result} (none_ : r.answers = 0) : r ≠ ⟨1, 0⟩ := fun eq => by
  rw [eq] at none_
  cases none_

theorem arrive_iff (bottom : Bottom) (ioctl : mp.type = .ioctl) (carry : ∀ m ∈ above, m.carries = true) :
    arrive ifreq above mp bottom = ⟨1, 0⟩ ↔ bottom.answers := by
  cases bottom with
  | peer modules => exact iff_of_false (Result.unanswered (rise_ioctl peerRqPutp_ioctl ioctl)) id
  | driver d =>
    cases d with
    | tty =>
      have turned : wqPutp ifreq true mp Driver.tty.tab = .other { mp with type := .iocnak, cont := none } := by
        show (if true && mp.type = .ioctl then Action.other { mp with type := .iocnak, cont := none } else .free) = _
        simp [ioctl]
      have nak : ({ mp with type := .iocnak, cont := none } : Msg).type ≠ .ioctl := by simp
      rw [arrive, turned]
      exact iff_of_true (rise_answer nak carry) (.inl rfl)
    | ip =>
      rw [arrive]
      refine iff_of_true ?_ (.inr rfl)
      have turned : ∃ answer : Msg, answer.type ≠ .ioctl ∧ wqPutp ifreq true mp Driver.ip.tab = .other answer := by
        show ∃ answer : Msg, answer.type ≠ .ioctl ∧ ipWput ifreq mp = .other answer
        rw [ipWput, if_pos ioctl]
        split
        · exact ⟨_, by cases ifreq <;> simp, rfl⟩
        · exact ⟨_, by simp, rfl⟩
      obtain ⟨answer, type, turned⟩ := turned
      rw [turned]
      exact rise_answer type carry
    | loop =>
      exact iff_of_false (Result.unanswered (rise_ioctl shRqPutp_ioctl ioctl)) (by simp [Bottom.answers])
    | _ =>
      exact iff_of_false (Result.unanswered rfl) (by simp [Bottom.answers])

/-- Down the modules there is an answer: a terminal command meets an ldterm, or the driver answers, and
all modules before carry. -/
def Answering (cmd : IoctlCmd) (modules : List Pushed) (bottom : Bottom) : Prop :=
  ∃ above rest, modules = above ++ rest ∧ (∀ m ∈ above, m.carries = true) ∧
    ((terminal cmd = true ∧ ∃ below, rest = ⟨.ldterm, true⟩ :: below) ∨ (rest = [] ∧ bottom.answers))

theorem answering_nil (bottom : Bottom) : Answering cmd [] bottom ↔ bottom.answers := by
  constructor
  · rintro ⟨above, rest, split_, -, answer⟩
    obtain ⟨-, rfl⟩ := List.append_eq_nil_iff.mp split_.symm
    rcases answer with ⟨-, below, eq⟩ | ⟨-, answers⟩
    · cases eq
    · exact answers
  · exact fun answers => ⟨[], [], rfl, fun _ member => absurd member List.not_mem_nil, .inr ⟨rfl, answers⟩⟩

theorem answering_cons {bottom : Bottom} {below : List Pushed} (other : ¬(terminal cmd = true ∧ m = ⟨.ldterm, true⟩)) :
    Answering cmd (m :: below) bottom ↔ m.carries = true ∧ Answering cmd below bottom := by
  constructor
  · rintro ⟨above, rest, split_, carry, answer⟩
    cases above with
    | nil =>
      rcases answer with ⟨command, tail, eq⟩ | ⟨eq, -⟩
      · rw [eq] at split_
        exact absurd ⟨command, (List.cons.inj split_).1⟩ other
      · rw [eq] at split_
        cases split_
    | cons first above =>
      obtain ⟨rfl, tail⟩ := List.cons.inj split_
      obtain ⟨here, carry⟩ := List.forall_mem_cons.mp carry
      exact ⟨here, above, rest, tail, carry, answer⟩
  · rintro ⟨here, above, rest, split_, carry, answer⟩
    exact ⟨m :: above, rest, congrArg (m :: ·) split_, List.forall_mem_cons.mpr ⟨here, carry⟩, answer⟩

theorem fall_iff {bottom : Bottom} {below : List Pushed} (carried : Carried cmd mp)
    (accepted : strioctlPayloadSize cmd = some payload) (carry : ∀ m ∈ above, m.carries = true) :
    fall ifreq bottom above below mp = ⟨1, 0⟩ ↔ Answering cmd below bottom := by
  induction below generalizing above mp with
  | nil => rw [fall, answering_nil, arrive_iff bottom carried.type carry]
  | cons m below ih =>
    obtain ⟨module, alloc⟩ := m
    rw [fall]
    have on {m : Pushed} (carries : m.carries = true) : ∀ m' ∈ m :: above, m'.carries = true :=
      List.forall_mem_cons.mpr ⟨carries, carry⟩
    -- A module that carries hands the rest of the way to the induction; one that does not ends it.
    cases module with
    | upper =>
      rw [answering_cons (by simp)]
      exact (ih carried.upper (on rfl)).trans (by simp [Pushed.carries])
    | delay =>
      rw [answering_cons (by simp)]
      exact (ih carried (on rfl)).trans (by simp [Pushed.carries])
    | ldterm =>
      have handled := carried.terminal accepted
      cases alloc with
      | false =>
        rw [answering_cons (by simp)]
        exact (ih carried (on rfl)).trans (by simp [Pushed.carries])
      | true =>
        cases found : ldtermHandleIoctl mp with
        | some answer =>
          have way : wqPutp ifreq (Pushed.state ⟨.ldterm, true⟩) mp Module.ldterm.tab = .other answer := by
            show ldtermWqPutp true mp = .other answer
            rw [ldtermWqPutp, if_pos (by simp [carried.type]), found]
          rw [found] at handled
          rw [way]
          refine iff_of_true (rise_answer (ldtermHandleIoctl_type found) carry) ?_
          exact ⟨[], _, rfl, fun _ member => absurd member List.not_mem_nil, .inl ⟨handled.symm, below, rfl⟩⟩
        | none =>
          have way : wqPutp ifreq (Pushed.state ⟨.ldterm, true⟩) mp Module.ldterm.tab = .next mp := by
            show ldtermWqPutp true mp = .next mp
            rw [ldtermWqPutp, if_pos (by simp [carried.type]), found]
          rw [found] at handled
          rw [way, answering_cons (fun both => by rw [← handled] at both; cases both.1)]
          exact (ih carried (on rfl)).trans (by simp [Pushed.carries])
    | udp =>
      rw [answering_cons (by simp)]
      cases alloc with
      | false => exact iff_of_false (Result.unanswered rfl) (by simp [Pushed.carries])
      | true =>
        have way : wqPutp ifreq (Pushed.state ⟨.udp, true⟩) mp Module.udp.tab = .next mp := by
          show (if true && mp.type = .ioctl then Action.next mp else .free) = .next mp
          simp [carried.type]
        rw [way]
        exact (ih carried (on rfl)).trans (by simp [Pushed.carries])
    | pktfilter =>
      rw [answering_cons (by simp)]
      cases alloc with
      | false => exact iff_of_false (Result.unanswered rfl) (by simp [Pushed.carries])
      | true => exact (ih carried (on rfl)).trans (by simp [Pushed.carries])
    | loop =>
      rw [answering_cons (by simp)]
      exact iff_of_false (Result.unanswered (rise_ioctl shRqPutp_ioctl carried.type)) (by simp [Pushed.carries])
    | _ =>
      rw [answering_cons (by simp)]
      exact iff_of_false (Result.unanswered rfl) (by simp [Pushed.carries])

end Ways

/-- An accepted command is answered once, and nothing is queued as data, exactly when the message meets
ldterm with a command of its own or reaches the tty or ip driver, through modules that carry it. -/
theorem strioctl_answered_iff (ifreq : Bool) (modules : List Pushed) (bottom : Bottom) (cmd : IoctlCmd) (payload : Nat)
    (accepted : strioctlPayloadSize cmd = some payload) :
    strioctl ifreq modules bottom cmd payload = ⟨1, 0⟩ ↔ Answering cmd modules bottom :=
  fall_iff ⟨rfl, .inl rfl⟩ accepted fun _ member => absurd member List.not_mem_nil

/-- The interface commands on /dev/udp with a delay pushed, and /dev/tty as it is opened. -/
theorem strioctl_answered_plumbing :
    strioctl true [⟨.delay, true⟩, ⟨.udp, true⟩] (.driver .ip) .siocgifaddr 20 = ⟨1, 0⟩ ∧
    strioctl true [⟨.ldterm, true⟩] (.driver .tty) .tcgeta 24 = ⟨1, 0⟩ :=
  ⟨(strioctl_answered_iff true _ _ .siocgifaddr 20 rfl).mpr
    ⟨[⟨.delay, true⟩, ⟨.udp, true⟩], [], rfl, by decide, .inr ⟨rfl, .inr rfl⟩⟩,
   (strioctl_answered_iff true _ _ .tcgeta 24 rfl).mpr
    ⟨[], _, rfl, by decide, .inl ⟨rfl, [], rfl⟩⟩⟩

/-- On /dev/null and /dev/tcp nothing answers; on a pipe and on /dev/loop the request itself is queued
as data, for the other end and for the caller. -/
theorem strioctl_unanswered : strioctl true [] (.driver .null) .tcgeta 24 = ⟨0, 0⟩ ∧
    strioctl true [⟨.tcp, true⟩] (.driver .ip) .siocgifaddr 20 = ⟨0, 0⟩ ∧
    strioctl true [] (.peer []) .tcgeta 24 = ⟨0, 1⟩ ∧ strioctl true [] (.driver .loop) .tcgeta 24 = ⟨0, 1⟩ := by
  decide

end Kappara.Ioctl
