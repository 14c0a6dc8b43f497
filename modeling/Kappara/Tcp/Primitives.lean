import Kappara.Tcp.Accept

/-! Primitives that the state of their stream does not admit (handle_bind_req,
handle_conn_req, handle_listen_req, handle_conn_res, handle_data_req and
handle_ordrel_req of uts/os/net/tcp.c).

Four of the six handlers test the state. The bind handler tests the flag bound,
which an accepted connection does not have; the accept handler takes any
responding stream that is CLOSED, also one that was in use before. -/

set_option autoImplicit false

namespace Kappara.Tcp

open Net

def Tcb.used (s : Tcb) : Prop := s.bound = true ∨ s.localPort ≠ 0#16 ∨ s.state ≠ .closed

def acceptable (sys : System) (listener child : Nat) (s t : Tcb) : Prop :=
  s.state = .listen ∧ 0 < s.pendingCount ∧ child ∈ sys.table.toList ∧ child ≠ listener ∧ t.state = .closed

instance (sys : System) (listener child : Nat) (s t : Tcb) : Decidable (acceptable sys listener child s t) :=
  inferInstanceAs (Decidable (_ ∧ _))

/-- What the user of the stream hears within the handler of a primitive. -/
def heard (net : Interfaces) (env : Env) (sys : System) : SysMove → List Ind
  | .bind id port asked answered =>
    match sys.tcbs id with
    | some c =>
      (handleBindReq env c.tcb port (bindAt sys.uppers ⟨ipprotoTcp, tcpBindKey port 0#16, id⟩ asked answered).2).ups
    | none => []
  | .connRes listener child _ =>
    match sys.tcbs listener, sys.tcbs child with
    | some c, some d => if acceptable sys listener child c.tcb d.tcb then [] else (protoerr env c.tcb).ups
    | _, _ => []
  | .user id e =>
    match sys.tcbs id with
    | some c => (handle net env c.tcb e).ups
    | none => []
  | _ => []

/-- The block of the stream, when no pass of it is under way, satisfies the condition. -/
def System.at (sys : System) (id : Nat) (P : Tcb → Prop) : Prop := ∃ s, sys.tcbs id = some ⟨s, []⟩ ∧ P s

/-- The primitive comes in a state that does not admit it. -/
def OutOfState (sys : System) : SysMove → Prop
  | .bind id _ _ _ => sys.at id fun s => s.bound = true ∨ s.state ≠ .closed
  | .connRes listener child _ => sys.at listener fun s => sys.at child fun t =>
    s.state ≠ .listen ∨ s.pendingCount = 0 ∨ t.used
  | .user id (.connReq _ _ _) => sys.at id fun s => s.state ≠ .bound
  | .user id .listenReq => sys.at id fun s => s.state ≠ .bound
  | .user id (.dataReq _) => sys.at id fun s => s.state ≠ .established
  | .user id .ordrelReq => sys.at id fun s => s.state ≠ .established ∧ s.state ≠ .closeWait
  | _ => False

/-- The binding of the stream shows in its flag; the responding stream was not in use before. -/
def Shown (sys : System) : SysMove → Prop
  | .bind id _ _ _ => sys.at id fun s => s.state ≠ .closed → s.bound = true
  | .connRes listener child _ =>
    sys.at listener fun s => sys.at child fun t => acceptable sys listener child s t → ¬ t.used
  | _ => True

def Ind.rejects : Ind → Prop
  | .bindNak => True
  | .disconInd _ => True
  | _ => False

/-- Nothing has changed at any stream or at IP, nothing was sent, and the user has been told. -/
def Rejected (sys sys' : System) (sent : List Segment) (ups : List Ind) : Prop :=
  sys' = sys ∧ sent = [] ∧ ∃ ind ∈ ups, ind.rejects

section Reject

variable {net : Interfaces} {env : Env} {sys sys' : System} {sent : List Segment} {id : Nat} {s : Tcb}

theorem reject_iff (ind : Ind) (rejects : ind.rejects) :
    Rejected sys sys [] (reply env ind) ↔ env.alloc .ind = true := by
  unfold reply
  split
  next alloc => exact ⟨fun _ => alloc, fun _ => ⟨rfl, rfl, ind, List.mem_singleton_self ind, rejects⟩⟩
  next failed =>
    refine ⟨fun ⟨_, _, i, member, _⟩ => ?_, fun alloc => absurd alloc failed⟩
    cases member

/-- A handler that answers with a protocol error. -/
theorem user_rejected_iff {e : Event} (block : sys.tcbs id = some ⟨s, []⟩) (errs : handle net env s e = protoerr env s)
    (alone : e.alone = true) (made : sysStep net env sys (.user id e) = some (sys', sent)) :
    Rejected sys sys' sent (heard net env sys (.user id e)) ↔ env.alloc .ind = true := by
  simp only [sysStep, alone, if_true, passAt, block, pass, errs, Option.some.injEq, Prod.mk.injEq] at made
  obtain ⟨rfl, rfl⟩ := made
  simp only [heard, block, errs]
  rw [show (protoerr env s).conf [] = ⟨s, []⟩ from rfl, System.set, ← block, Function.update_eq_self]
  exact reject_iff (.disconInd .protoerr) trivial

/-- A stream that is not bound by its flag leaves the state it was in, or its user hears nothing. -/
theorem bind_not_rejected {port : Port} {asked answered : Bool} (block : sys.tcbs id = some ⟨s, []⟩)
    (unbound : ¬ s.bound = true) (used : s.state ≠ .closed)
    (made : sysStep net env sys (.bind id port asked answered) = some (sys', sent)) :
    ¬ Rejected sys sys' sent (heard net env sys (.bind id port asked answered)) := by
  simp only [sysStep, block, System.bind, if_neg unbound, Option.some.injEq, Prod.mk.injEq] at made
  obtain ⟨rfl, rfl⟩ := made
  rintro ⟨same, -, ind, member, -⟩
  have now := congrArg (fun sys => sys.tcbs id) same
  simp only [System.set, Function.update_self, block, Option.some.injEq, Conf.mk.injEq, and_true] at now
  simp only [heard, block] at member
  generalize (bindAt sys.uppers ⟨ipprotoTcp, tcpBindKey port 0#16, id⟩ asked answered).2 = answer at now member
  rw [handleBindReq, if_neg unbound] at now member
  cases answer with
  | ack => exact unbound (now ▸ rfl)
  | nak => exact used (now ▸ rfl)
  | lost => cases member

end Reject

/-- A primitive out of state is refused without effect exactly when the memory for the refusal is there, a stream
that is asked to bind shows its binding in its flag, and the responding stream of an accept was never in use. -/
theorem out_of_state_rejected_iff (net : Interfaces) (env : Env) (sys sys' : System) (move : SysMove)
    (sent : List Segment) (out : OutOfState sys move) (made : sysStep net env sys move = some (sys', sent)) :
    Rejected sys sys' sent (heard net env sys move) ↔ env.alloc .ind = true ∧ Shown sys move := by
  cases move with
  | bind id port asked answered =>
    obtain ⟨s, block, state⟩ := out
    by_cases bound : s.bound = true
    · simp only [sysStep, block, System.bind, if_pos bound, Option.some.injEq, Prod.mk.injEq] at made
      obtain ⟨rfl, rfl⟩ := made
      simp only [heard, block, handleBindReq, if_pos bound]
      exact (reject_iff .bindNak trivial).trans ⟨fun alloc => ⟨alloc, s, block, fun _ => bound⟩, And.left⟩
    · have used := state.resolve_left bound
      refine ⟨fun rejected => absurd rejected (bind_not_rejected block bound used made), ?_⟩
      rintro ⟨_, t, again, shown⟩
      rw [block] at again
      cases again
      exact absurd (shown used) bound
  | connRes listener child iss =>
    obtain ⟨s, block, t, other, state⟩ := out
    simp only [sysStep, block, other] at made
    simp only [heard, block, other]
    by_cases passes : acceptable sys listener child s t
    · -- the state of the listener is not the reason, so the responding stream has been in use
      have used : t.used := (state.resolve_left (not_not_intro passes.1)).resolve_left passes.2.1.ne'
      rw [if_pos passes]
      constructor
      · rintro ⟨-, -, ind, member, -⟩
        cases member
      · rintro ⟨-, s', again, t', again', shown⟩
        rw [block] at again
        rw [other] at again'
        cases again
        cases again'
        exact absurd used (shown passes)
    · rw [if_neg (show ¬ (_ ∧ _ ∧ _ ∧ _ ∧ _) from passes)] at made
      cases made
      rw [if_neg passes]
      exact (reject_iff (.disconInd .protoerr) trivial).trans
        ⟨fun alloc => ⟨alloc, s, block, t, other, fun lets => absurd lets passes⟩, And.left⟩
  | user id e =>
    have shown : env.alloc .ind = true ↔ env.alloc .ind = true ∧ Shown sys (.user id e) :=
      ⟨fun alloc => ⟨alloc, trivial⟩, And.left⟩
    cases e with
    | connReq ip port iss | listenReq | dataReq payload =>
      obtain ⟨s, block, state⟩ := out
      refine (user_rejected_iff block ?_ rfl made).trans shown
      exact if_neg state
    | ordrelReq =>
      obtain ⟨s, block, active, passive⟩ := out
      refine (user_rejected_iff block ?_ rfl made).trans shown
      rw [handle, handleOrdrelReq]
      split
      · exact absurd ‹_› active
      · exact absurd ‹_› passive
      · rfl
    | _ => exact out.elim
  | _ => exact out.elim

theorem acceptedLan_block : ∃ s, acceptedLan.tcbs 1 = some ⟨s, []⟩ ∧ s.state = .established ∧ s.bound = false := by
  obtain ⟨⟨s, stack⟩, block⟩ : ∃ c, acceptedLan.tcbs 1 = some c := Option.isSome_iff_exists.mp (by decide +kernel)
  have rest : ((acceptedLan.tcbs 1).map (·.stack)) = some [] := by decide +kernel
  have here : acceptedLan.blockIs (fun s => s.state == .established && !s.bound) 1 = true := by decide +kernel
  rw [blockIs_eq block] at here
  simp only [Bool.and_eq_true, beq_iff_eq, Bool.not_eq_true'] at here
  obtain rfl : stack = [] := by simpa [block] using rest
  exact ⟨s, block, here⟩

theorem out_of_state_rejected_iff_accepted : SysReach lan (fun _ _ => true) acceptedLan ∧
    acceptedLan.blockIs (·.state == .established) 1 = true ∧
    ∃ sys', Rejected acceptedLan sys' [] (heard lan (.calm 4#32) acceptedLan (.user 1 .listenReq)) := by
  obtain ⟨s, block, here, -⟩ := acceptedLan_block
  have silent : (sysStep lan (.calm 4#32) acceptedLan (.user 1 .listenReq)).map (·.2) = some [] := by decide +kernel
  obtain ⟨⟨sys', sent⟩, made, rfl⟩ := Option.map_eq_some_iff.mp silent
  exact ⟨.run acceptLan .start (by decide +kernel), by decide +kernel, sys',
    (out_of_state_rejected_iff lan (.calm 4#32) _ _
    (.user 1 .listenReq) _ ⟨s, block, by simp [here]⟩ made).mpr ⟨rfl, trivial⟩⟩

/-- A bind request on an accepted, established connection is granted, and the connection is gone. -/
theorem bind_drops_connection : ∃ sys sys', SysReach lan (fun _ _ => true) sys ∧
    OutOfState sys (.bind 1 9#16 true true) ∧
    sys.blockIs (fun s => s.state == .established && s.localPort == 7#16) 1 = true ∧
    sysStep lan (.calm 4#32) sys (.bind 1 9#16 true true) = some (sys', []) ∧
    heard lan (.calm 4#32) sys (.bind 1 9#16 true true) = [.bindAck 9#16] ∧
    sys'.blockIs (fun s => s.state == .bound && s.localPort == 9#16) 1 = true ∧
    ¬ Rejected sys sys' [] (heard lan (.calm 4#32) sys (.bind 1 9#16 true true)) := by
  obtain ⟨s, block, here, unbound⟩ := acceptedLan_block
  have used : s.state ≠ .closed := by simp [here]
  have after : ((sysStep lan (.calm 4#32) acceptedLan (.bind 1 9#16 true true)).map fun done =>
      (done.1.blockIs (fun s => s.state == .bound && s.localPort == 9#16) 1, done.2)) =
        some (true, []) := by decide +kernel
  obtain ⟨⟨sys', sent⟩, made, done⟩ := Option.map_eq_some_iff.mp after
  simp only [Prod.mk.injEq] at done
  obtain ⟨now, rfl⟩ := done
  exact ⟨acceptedLan, sys', .run acceptLan .start (by decide +kernel), ⟨s, block, .inr used⟩, by decide +kernel, made,
    by decide +kernel, now, bind_not_rejected block (by simp [unbound]) used made⟩

end Kappara.Tcp
