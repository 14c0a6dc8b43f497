import Kappara.Tcp.Isolation
import Kappara.Tcp.Place

/-! How segments reach accepted connections.

An accepted connection has no bind of its own: its segments arrive at the
listener and are passed on. This works while the listener stays, alone on its
port, and while no two connections have the same addresses and ports. -/

set_option autoImplicit false

namespace Kappara.Tcp

open Net
open Tcp.System (set_of_ne set_self)

-- The block is bound and listens on the port.
def Tcb.listens (s : Tcb) (port : Port) : Prop := s.bound = true ∧ s.state = .listen ∧ s.localPort = port

-- The block is a connection without a bind of its own.
def Tcb.accepted (s : Tcb) : Prop := s.bound = false ∧ s.state.synced = true

-- The block fits in among the other streams.
structure Fits (sys : System) (id : Nat) (s : Tcb) : Prop where
  backlog : s.bound = false → s.pendingCount = 0
  registered : s.accepted → id ∈ sys.table.toList
  listener : s.accepted → ∃ l d, l ≠ id ∧ sys.tcbs l = some d ∧ d.tcb.listens s.localPort
  unique : s.accepted → ∀ other d, other ≠ id → sys.tcbs other = some d → d.tcb.accepted →
    d.tcb.connects s.localPort s.remoteIp s.remotePort = false
  direct : s.bound = true → s.state.live = true → ∀ other d, other ≠ id → sys.tcbs other = some d →
    ¬ d.tcb.listens s.localPort
  alone : ∀ port, s.listens port → ∀ other d, other ≠ id → sys.tcbs other = some d → d.tcb.bound = true →
    d.tcb.state.live = true ∨ d.tcb.state = .listen → d.tcb.localPort ≠ port

-- The binds of a stream with TCP.
def bindsOf (uppers : Uppers) (id : Nat) : List Upper :=
  uppers.toList.filter fun upper => upper.proto = ipprotoTcp ∧ upper.rq = id

-- The bind a block should have.
def ownBind (id : Nat) (block : Option Conf) : List Upper :=
  match block with
  | none => []
  | some c => if c.tcb.bound then [⟨ipprotoTcp, tcpBindKey c.tcb.localPort 0#16, id⟩] else []

structure Tidy (sys : System) : Prop where
  fits : ∀ id c, sys.tcbs id = some c → Fits sys id c.tcb
  binds : ∀ id, bindsOf sys.uppers id = ownBind id (sys.tcbs id)

section Tidy

variable {sys sys' : System} {id : Nat} {s s' : Tcb} {c c' : Conf}

theorem connects_symm {s t : Tcb} (connects : t.connects s.localPort s.remoteIp s.remotePort = true) :
    s.connects t.localPort t.remoteIp t.remotePort = true := by
  simp only [Tcb.connects, Bool.and_eq_true, beq_iff_eq] at connects ⊢
  exact ⟨⟨connects.1.1.symm, connects.1.2.symm⟩, connects.2.symm⟩

/-- One block changes: if the new one fits in, and no accepted connection loses its listener, all blocks do. -/
theorem Tidy.change (tidy : Tidy sys) (others : ∀ other, other ≠ id → sys'.tcbs other = sys.tcbs other)
    (table : ∀ other, other ≠ id → other ∈ sys.table.toList → other ∈ sys'.table.toList)
    (binds : ∀ id, bindsOf sys'.uppers id = ownBind id (sys'.tcbs id))
    (fits : ∀ c', sys'.tcbs id = some c' → Fits sys' id c'.tcb)
    (kept : ∀ c, sys.tcbs id = some c → ∀ other d, other ≠ id → sys.tcbs other = some d → d.tcb.accepted →
      c.tcb.listens d.tcb.localPort → ∃ c', sys'.tcbs id = some c' ∧ c'.tcb.listens d.tcb.localPort) : Tidy sys' := by
  refine ⟨fun this d block => ?_, binds⟩
  by_cases same : this = id
  · subst same
    exact fits d block
  · have before : sys.tcbs this = some d := (others this same).symm.trans block
    have old := tidy.fits this d before
    refine ⟨old.backlog, fun accepted => table this same (old.registered accepted), fun accepted => ?_,
      fun accepted other e ne found => ?_, fun bound live other e ne found => ?_,
        fun port listens other e ne found => ?_⟩
    · obtain ⟨l, e, ne, found, listens⟩ := old.listener accepted
      by_cases changed : l = id
      · subst changed
        obtain ⟨c', after, still⟩ := kept e found this d same before accepted listens
        exact ⟨l, c', ne, after, still⟩
      · exact ⟨l, e, ne, (others l changed).trans found, listens⟩
    · by_cases changed : other = id
      · subst changed
        intro theirs
        rw [← Bool.not_eq_true]
        intro connects
        have apart := (fits e found).unique theirs this d same block accepted
        rw [connects_symm connects] at apart
        cases apart
      · exact old.unique accepted other e ne ((others other changed).symm.trans found)
    · by_cases changed : other = id
      · subst changed
        intro listens
        exact (fits e found).alone _ listens this d same block bound (.inl live) rfl
      · exact old.direct bound live other e ne ((others other changed).symm.trans found)
    · by_cases changed : other = id
      · subst changed
        rintro theirs (live | listening) clash
        · exact (fits e found).direct theirs live this d same block (clash ▸ listens)
        · exact (fits e found).alone _ ⟨theirs, listening, clash⟩ this d same block listens.1 (.inr listens.2.1)
            listens.2.2
      · exact old.alone port listens other e ne ((others other changed).symm.trans found)

/-- Whether a block fits depends on the other blocks and on its own registration. -/
theorem Fits.transport (fits : Fits sys id s) (others : ∀ other, other ≠ id → sys'.tcbs other = sys.tcbs other)
    (table : id ∈ sys.table.toList → id ∈ sys'.table.toList) : Fits sys' id s where
  backlog := fits.backlog
  registered accepted := table (fits.registered accepted)
  listener accepted := by
    obtain ⟨l, d, ne, found, listens⟩ := fits.listener accepted
    exact ⟨l, d, ne, (others l ne).trans found, listens⟩
  unique accepted other d ne found := fits.unique accepted other d ne ((others other ne).symm.trans found)
  direct bound live other d ne found := fits.direct bound live other d ne ((others other ne).symm.trans found)
  alone port listens other d ne found := fits.alone port listens other d ne ((others other ne).symm.trans found)

section

variable (direct : s.bound = true → s.state.live = true → ∀ other d, other ≠ id → sys.tcbs other = some d →
    ¬ d.tcb.listens s.localPort)
  (alone : ∀ port, s.listens port → ∀ other d, other ≠ id → sys.tcbs other = some d → d.tcb.bound = true →
    d.tcb.state.live = true ∨ d.tcb.state = .listen → d.tcb.localPort ≠ port)
include direct alone

theorem Fits.lone (lone : ¬ s.accepted) (backlog : s.bound = false → s.pendingCount = 0) : Fits sys id s :=
  ⟨backlog, fun accepted => absurd accepted lone, fun accepted => absurd accepted lone,
    fun accepted => absurd accepted lone, direct, alone⟩

theorem Fits.own (bound : s.bound = true) : Fits sys id s :=
  .lone direct alone (fun accepted => Bool.eq_false_iff.mp accepted.1 bound) fun unbound =>
    absurd bound (Bool.eq_false_iff.mp unbound)

end

theorem Fits.idle (backlog : s.bound = false → s.pendingCount = 0) (idle : s.state = .closed ∨ s.state = .bound) :
    Fits sys id s := by
  refine .lone (fun _ live => ?_) (fun _ listens => ?_) (fun accepted => ?_) backlog
  · rcases idle with state | state <;> simp [state, TcpState.live] at live
  · rcases idle with state | state <;> simp [Tcb.listens, state] at listens
  · rcases idle with state | state <;> simp [Tcb.accepted, state, TcpState.synced] at accepted

theorem Stays.accepted (stays : Stays s s') (accepted : s'.accepted) : s.accepted :=
  ⟨stays.bound ▸ accepted.1, stays.drifts.synced_of accepted.2⟩

theorem Stays.listens {port : Port} (stays : Stays s s') : s'.listens port ↔ s.listens port := by
  rw [Tcb.listens, Tcb.listens, stays.bound, stays.port, stays.drifts.listen]

theorem Fits.stays (fits : Fits sys id s) (stays : Stays s s') : Fits sys id s' where
  backlog unbound := Nat.le_zero.mp (fits.backlog (stays.bound ▸ unbound) ▸ stays.backlog)
  registered accepted := fits.registered (stays.accepted accepted)
  listener accepted := stays.port ▸ fits.listener (stays.accepted accepted)
  unique accepted := by
    obtain ⟨ip, peer⟩ := stays.remote accepted.2
    rw [stays.port, ip, peer]
    exact fits.unique (stays.accepted accepted)
  direct bound live := stays.port ▸ fits.direct (stays.bound ▸ bound) (stays.drifts.live_of live)
  alone port listens := fits.alone port (stays.listens.mp listens)

theorem ownBind_bound (bound : c.tcb.bound = true) :
    ownBind id (some c) = [⟨ipprotoTcp, tcpBindKey c.tcb.localPort 0#16, id⟩] :=
  if_pos bound

theorem ownBind_unbound (unbound : c.tcb.bound = false) : ownBind id (some c) = [] := by
  rw [ownBind, unbound]
  rfl

section

variable (tidy : Tidy sys) (block : sys.tcbs id = some c)
include tidy block

/-- A block may change where it fits, if IP's table follows and its accepted connections keep their listener. -/
theorem Tidy.write {uppers : Uppers}
    (own : bindsOf uppers id = ownBind id (some c'))
    (rest : ∀ other, other ≠ id → bindsOf uppers other = bindsOf sys.uppers other) (fits : Fits sys id c'.tcb)
    (kept : ∀ other d, other ≠ id → sys.tcbs other = some d → d.tcb.accepted → c.tcb.listens d.tcb.localPort →
      c'.tcb.listens d.tcb.localPort) : Tidy ⟨(sys.set id c').tcbs, sys.table, uppers⟩ := by
  refine @Tidy.change sys _ id tidy (fun other ne => set_of_ne c' ne) (fun _ _ member => member) ?_ ?_ ?_
  · intro this
    by_cases same : this = id
    · subst same
      rw [set_self]
      exact own
    · rw [set_of_ne c' same]
      exact (rest this same).trans (tidy.binds this)
  · intro d found
    rw [set_self, Option.some.injEq] at found
    subst found
    exact fits.transport (fun other ne => set_of_ne c' ne) fun member => member
  · intro d found other e ne theirs accepted listens
    rw [block, Option.some.injEq] at found
    subst found
    exact ⟨c', set_self .., kept other e ne theirs accepted listens⟩

theorem Tidy.set (bound : c'.tcb.bound = c.tcb.bound)
    (port : c'.tcb.localPort = c.tcb.localPort) (fits : Fits sys id c'.tcb)
    (kept : ∀ other d, other ≠ id → sys.tcbs other = some d → d.tcb.accepted → c.tcb.listens d.tcb.localPort →
      c'.tcb.listens d.tcb.localPort) : Tidy (sys.set id c') := by
  refine tidy.write block ?_ (fun _ _ => rfl) fits kept
  have same : ownBind id (some c') = ownBind id (some c) := by rw [ownBind, ownBind, bound, port]
  rw [same, ← block]
  exact tidy.binds id

theorem Tidy.stays (stays : Stays c.tcb c'.tcb) : Tidy (sys.set id c') :=
  tidy.set block stays.bound stays.port ((tidy.fits id c block).stays stays) fun _ _ _ _ _ listens =>
    stays.listens.mpr listens

end

end Tidy

section Binds

variable {sys : System} {uppers uppers' : Uppers} {upper : Upper} {id : Nat} {c : Conf}

theorem perm_ownBind {l : List Upper} {block : Option Conf} (perm : l.Perm (ownBind id block)) :
    l = ownBind id block := by
  cases block with
  | none => exact perm.eq_nil
  | some c =>
    by_cases bound : c.tcb.bound = true
    · rw [ownBind, if_pos bound] at perm ⊢
      exact List.perm_singleton.mp perm
    · rw [ownBind, if_neg bound] at perm ⊢
      exact perm.eq_nil

/-- The binds of the other streams do not see an entry come or go. -/
theorem bindsOf_cons (perm : uppers'.toList.Perm (upper :: uppers.toList))
    (other : upper.proto ≠ ipprotoTcp ∨ upper.rq ≠ id) : (bindsOf uppers' id).Perm (bindsOf uppers id) := by
  have filtered := perm.filter fun upper => upper.proto = ipprotoTcp ∧ upper.rq = id
  rwa [List.filter_cons_of_neg] at filtered
  simpa using fun tcp => other.resolve_left (not_not.mpr tcp)

theorem bindsOf_own (perm : uppers'.toList.Perm (upper :: uppers.toList)) (tcp : upper.proto = ipprotoTcp) :
    (bindsOf uppers' upper.rq).Perm (upper :: bindsOf uppers upper.rq) := by
  have filtered := perm.filter fun other => other.proto = ipprotoTcp ∧ other.rq = upper.rq
  rwa [List.filter_cons_of_pos] at filtered
  simpa using tcp

theorem ipBind_perm (bound : ipBind uppers upper = some uppers') : uppers'.toList.Perm (upper :: uppers.toList) := by
  rw [ipBind] at bound
  split at bound
  · cases bound
  · exact SlotTable.insert_perm bound

theorem count_ipDemux : (ipDemux uppers ipprotoTcp).count id = (bindsOf uppers id).length := by
  rw [ipDemux, List.count_eq_countP, List.countP_map, List.countP_filter, bindsOf, ← List.countP_eq_length_filter]
  apply List.countP_congr
  intro upper _
  simp [and_comm]

theorem Tidy.count (tidy : Tidy sys) (block : sys.tcbs id = some c) (bound : c.tcb.bound = true) :
    (ipDemux sys.uppers ipprotoTcp).count id = 1 := by
  rw [count_ipDemux, tidy.binds, block, ownBind, if_pos bound]
  rfl

theorem Tidy.bound_of_mem (tidy : Tidy sys) (member : id ∈ ipDemux sys.uppers ipprotoTcp) :
    ∃ c, sys.tcbs id = some c ∧ c.tcb.bound = true := by
  have positive := List.count_pos_iff.mpr member
  rw [count_ipDemux, tidy.binds] at positive
  unfold ownBind at positive
  split at positive
  · cases positive
  next c block =>
    refine ⟨c, block, ?_⟩
    by_contra unbound
    rw [if_neg unbound] at positive
    cases positive

theorem Tidy.mem_of_bound (tidy : Tidy sys) (block : sys.tcbs id = some c) (bound : c.tcb.bound = true) :
    id ∈ ipDemux sys.uppers ipprotoTcp :=
  List.count_pos_iff.mp (by rw [tidy.count block bound]; exact Nat.one_pos)

end Binds

-- Accepted connections depend on the listener.
def orphans (sys : System) (s : Tcb) : Bool :=
  s.bound && s.state == .listen &&
    sys.table.toList.any (sys.blockIs fun t => !t.bound && t.state.synced && t.localPort == s.localPort)

-- What a run has to avoid: that a listener goes while it has connections, that an answer of IP is lost,
-- that a stream with a bind is accepted into or a second time for the same peer, and that a port has a
-- listener together with another bound listener or connection.
def tended (sys : System) : SysMove → Bool
  | .close id told => !sys.blockIs (fun s => s.bound && (!told || orphans sys s)) id
  | .bind _ _ asked answered => !asked || answered
  | .connRes listener child _ =>
    !sys.blockIs Tcb.bound child &&
      !sys.blockIs (fun s => (tcpFindChild sys s.localPort (popPending s).1.remoteIp
        (popPending s).1.remotePort).isSome) listener
  | .user id (.tick now) => !sys.blockIs (fun s => givesUp s now && orphans sys s) id
  | .user id .listenReq =>
    !sys.blockIs (fun s => s.bound && s.state == .bound && (ipDemux sys.uppers ipprotoTcp).any fun other =>
      other != id && sys.blockIs (fun t => t.localPort == s.localPort && (t.state == .listen || t.state.live)) other) id
  | .user id (.connReq _ _ _) =>
    !sys.blockIs (fun s => s.bound && s.state == .bound &&
      (ipDemux sys.uppers ipprotoTcp).any (sys.blockIs fun t => t.state == .listen && t.localPort == s.localPort)) id
  | _ => true

section Moves

variable {net : Interfaces} {env : Env} {sys sys' : System} {id : Nat} {s s' : Tcb} {c c' : Conf} {stack : List Frame}
  {uppers : Uppers}

theorem blockIs_eq {test : Tcb → Bool} (block : sys.tcbs id = some c) : sys.blockIs test id = test c.tcb := by
  rw [System.blockIs, block]

section

variable (tidy : Tidy sys)
include tidy

theorem Tidy.childless (none : orphans sys s = false) {other : Nat} {d : Conf} (found : sys.tcbs other = some d)
    (accepted : d.tcb.accepted) : ¬ s.listens d.tcb.localPort := by
  intro listens
  have member := (tidy.fits other d found).registered accepted
  have hit : (sys.table.toList.any (sys.blockIs fun t => !t.bound && t.state.synced && t.localPort == s.localPort)) =
      true := by
    refine List.any_eq_true.mpr ⟨other, member, ?_⟩
    rw [blockIs_eq found, accepted.1, accepted.2, listens.2.2]
    simp
  simp [orphans, listens.1, listens.2.1, hit] at none

theorem Tidy.placed {e : Event} (block : sys.tcbs id = some ⟨s, []⟩) (ok : tended sys (.user id e) = true)
    (placed : Placed s s' e) : Tidy (sys.set id ⟨s', stack⟩) := by
  have backlog {before after : TcpState} (turns : Turns before after s s') (unbound : s'.bound = false) :
      s'.pendingCount = 0 :=
    turns.backlog.trans ((tidy.fits id _ block).backlog (turns.bound ▸ unbound))
  cases placed with
  | stays stays => exact tidy.stays block stays
  | opens turns =>
    refine tidy.set block turns.bound turns.port (.lone ?_ ?_ ?_ (backlog turns)) ?_
    · intro bound _ other d _ found listens
      rw [tended, blockIs_eq block] at ok
      have hit : (ipDemux sys.uppers ipprotoTcp).any (sys.blockIs fun t =>
          t.state == .listen && t.localPort == s.localPort) = true := by
        refine List.any_eq_true.mpr ⟨other, tidy.mem_of_bound found listens.1, ?_⟩
        rw [blockIs_eq found, listens.2.1, listens.2.2, turns.port]
        simp
      have before : s.bound = true := turns.bound ▸ bound
      simp [before, turns.before, hit] at ok
    · exact fun _ listens => by simp [Tcb.listens, turns.after] at listens
    · exact fun accepted => by simp [Tcb.accepted, turns.after, TcpState.synced] at accepted
    · exact fun _ _ _ _ _ listens => by simp [Tcb.listens, turns.before] at listens
  | listens turns =>
    refine tidy.set block turns.bound turns.port (.lone ?_ ?_ ?_ (backlog turns)) ?_
    · exact fun _ live => by simp [turns.after, TcpState.live] at live
    · intro port listens other d ne found bound kind clash
      rw [tended, blockIs_eq block] at ok
      have hit : ((ipDemux sys.uppers ipprotoTcp).any fun other => other != id &&
          sys.blockIs (fun t => t.localPort == s.localPort && (t.state == .listen || t.state.live)) other) = true := by
        refine List.any_eq_true.mpr ⟨other, tidy.mem_of_bound found bound, ?_⟩
        have same : d.tcb.localPort = s.localPort := clash.trans (listens.2.2.symm.trans turns.port)
        rw [blockIs_eq found]
        rcases kind with live | listening
        · simp [ne, same, live]
        · simp [ne, same, listening]
      have before : s.bound = true := turns.bound ▸ listens.1
      simp [before, turns.before, hit] at ok
    · exact fun accepted => by simp [Tcb.accepted, turns.after, TcpState.synced] at accepted
    · exact fun _ _ _ _ _ listens => by simp [Tcb.listens, turns.before] at listens
  | givenUp fires turns =>
    refine tidy.set block turns.bound turns.port (.idle (backlog turns) (.inl turns.after)) ?_
    · intro other d _ found accepted listens
      rw [tended, blockIs_eq block] at ok
      have none : orphans sys s = false := by simpa [fires] using ok
      exact absurd listens (tidy.childless none found accepted)

/-- A segment reaches a bound block directly, or through its listener one that is synchronized. -/
theorem Tidy.taken {seg : Segment} (block : sys.tcbs id = some c)
    (reaches : c.tcb.bound = true ∨ c.tcb.state.synced = true) :
    Tidy (sys.set id ⟨(arrive net env c.tcb seg).tcb, stack⟩) := by
  have fits := tidy.fits id c block
  rcases arrive_place net env c.tcb seg with stays | turns | queues
  · exact tidy.stays block stays
  · have bound : c.tcb.bound = true := by
      apply reaches.resolve_right
      simp [turns.before, TcpState.synced]
    have live : c.tcb.state.live = true := by
      rw [turns.before]
      rfl
    refine tidy.set block turns.bound turns.port (.own ?_ ?_ (turns.bound.trans bound)) ?_
    · exact fun _ _ => turns.port ▸ fits.direct bound live
    · exact fun _ listens => by simp [Tcb.listens, turns.after] at listens
    · exact fun _ _ _ _ _ listens => by simp [Tcb.listens, turns.before] at listens
  · have bound : c.tcb.bound = true := by
      apply reaches.resolve_right
      simp [queues.before, TcpState.synced]
    have same {port : Port} : (arrive net env c.tcb seg).tcb.listens port ↔ c.tcb.listens port := by
      rw [Tcb.listens, Tcb.listens, queues.bound, queues.port, queues.before, queues.after]
    refine tidy.set block queues.bound queues.port (.own ?_ ?_ (queues.bound.trans bound)) ?_
    · exact fun _ live => by simp [queues.after, TcpState.live] at live
    · exact fun port listens => fits.alone port (same.mp listens)
    · exact fun _ _ _ _ _ listens => same.mpr listens

theorem Tidy.bindsSame (same : ∀ id, (bindsOf uppers id).Perm (bindsOf sys.uppers id)) :
    Tidy { sys with uppers := uppers } := by
  refine ⟨fun this d block => (tidy.fits this d block).transport (fun _ _ => rfl) fun member => member, fun this => ?_⟩
  exact perm_ownBind ((same this).trans (.of_eq (tidy.binds this)))

theorem Tidy.qopen (closed : sys.tcbs id = none) : Tidy (sys.qopen id) := by
  have others (other : Nat) (ne : other ≠ id) : (sys.qopen id).tcbs other = sys.tcbs other :=
    Function.update_of_ne ne ..
  have self : (sys.qopen id).tcbs id = some fresh := Function.update_self ..
  apply tidy.change others
  · intro other ne member
    show other ∈ SlotTable.toList ((sys.table.insert id).getD sys.table)
    cases inserted : sys.table.insert id with
    | none => exact member
    | some table => exact (SlotTable.insert_perm inserted).mem_iff.mpr (.tail _ member)
  · intro this
    by_cases same : this = id
    · subst same
      rw [self, show (sys.qopen this).uppers = sys.uppers from rfl, tidy.binds, closed]
      rfl
    · rw [others this same]
      exact tidy.binds this
  · intro d found
    rw [self, Option.some.injEq] at found
    subst found
    exact .idle (fun _ => rfl) (.inl rfl)
  · intro c found
    rw [closed] at found
    cases found

end

theorem qclose_self (told : Bool) : (sys.qclose id s told).tcbs id = none := Function.update_self ..

theorem qclose_of_ne (told : Bool) (other : Nat) (ne : other ≠ id) :
    (sys.qclose id s told).tcbs other = sys.tcbs other :=
  Function.update_of_ne ne ..

theorem Tidy.qclose_binds {told : Bool} (tidy : Tidy sys) (block : sys.tcbs id = some ⟨s, []⟩)
    (informed : s.bound = true → told = true) (this : Nat) :
    bindsOf (sys.qclose id s told).uppers this = ownBind this ((sys.qclose id s told).tcbs this) := by
  have before := tidy.binds this
  have own := tidy.binds id
  rw [block] at own
  cases bound : s.bound with
  | false =>
    have uppers : (sys.qclose id s told).uppers = sys.uppers := by simp [System.qclose, bound]
    rw [uppers]
    by_cases same : this = id
    · subst same
      rw [qclose_self, own, ownBind_unbound bound]
      rfl
    · rw [qclose_of_ne told this same]
      exact before
  | true =>
    rw [ownBind_bound bound] at own
    have held := by
      have member : _ ∈ bindsOf sys.uppers id := own ▸ List.mem_singleton.mpr rfl
      exact (List.mem_filter.mp member).1
    have perm := SlotTable.remove_perm held
    have uppers : (sys.qclose id s told).uppers = SlotTable.remove sys.uppers
        ⟨ipprotoTcp, tcpBindKey s.localPort 0#16, id⟩ := by
      simp [System.qclose, bound, informed bound, ipUnbind]
    rw [uppers]
    by_cases same : this = id
    · subst same
      have rest := bindsOf_own perm rfl
      rw [own] at rest
      rw [qclose_self]
      exact rest.cons_inv.symm.eq_nil
    · rw [qclose_of_ne told this same]
      exact perm_ownBind ((bindsOf_cons perm (.inr (Ne.symm same))).symm.trans (.of_eq before))

theorem Tidy.qclose {told : Bool} (tidy : Tidy sys) (block : sys.tcbs id = some ⟨s, []⟩)
    (ok : tended sys (.close id told) = true) : Tidy (sys.qclose id s told) := by
  have minded : s.bound = true → told = true ∧ orphans sys s = false := by
    intro bound
    rw [tended, blockIs_eq block] at ok
    simpa [bound] using ok
  apply tidy.change (qclose_of_ne told)
  · intro other ne member
    show other ∈ SlotTable.toList (sys.table.remove id)
    by_cases held : id ∈ sys.table.toList
    · exact (List.mem_cons.mp ((SlotTable.remove_perm held).mem_iff.mp member)).resolve_left ne
    · rwa [SlotTable.remove_of_not_mem held]
  · exact tidy.qclose_binds block fun bound => (minded bound).1
  · intro d found
    rw [qclose_self] at found
    cases found
  · intro c found other d ne theirs accepted listens
    rw [block, Option.some.injEq] at found
    subst found
    exact absurd listens (tidy.childless (minded listens.1).2 theirs accepted)

/-- A block without a bind moves to CLOSED or BOUND, and IP's table follows. -/
theorem Tidy.rebound (tidy : Tidy sys) (block : sys.tcbs id = some c) (unbound : c.tcb.bound = false)
    (idle : c'.tcb.state = .closed ∨ c'.tcb.state = .bound) (empty : c'.tcb.pendingCount = 0)
    (own : (bindsOf uppers id).Perm (ownBind id (some c')))
    (rest : ∀ other, other ≠ id → (bindsOf uppers other).Perm (bindsOf sys.uppers other)) :
    Tidy ⟨(sys.set id c').tcbs, sys.table, uppers⟩ := by
  refine tidy.write block (perm_ownBind own) (fun other ne => ?_) (.idle (fun _ => empty) idle)
    fun _ _ _ _ _ listens => ?_
  · rw [tidy.binds]
    exact perm_ownBind ((rest other ne).trans (.of_eq (tidy.binds other)))
  · rw [listens.1] at unbound
    cases unbound

-- The block after a bind request, by the answer it got.
structure Answered (s : Tcb) (port : Port) (answer : BindAnswer) (s' : Tcb) : Prop where
  idle : s'.state = .closed ∨ s'.state = .bound
  backlog : s'.pendingCount = s.pendingCount
  bound : s'.bound = true ↔ answer = .ack
  port : answer = .ack → s'.localPort = port

theorem handleBindReq_answered (env : Env) (port : Port) (answer : BindAnswer) (unbound : s.bound = false) :
    Answered s port answer (handleBindReq env s port answer).tcb := by
  rw [handleBindReq, if_neg (by simp [unbound])]
  cases answer with
  | ack => exact ⟨.inr rfl, rfl, ⟨fun _ => rfl, fun _ => rfl⟩, fun _ => rfl⟩
  | nak => exact ⟨.inl rfl, rfl, ⟨fun bound => (by cases bound), fun ack => (by cases ack)⟩, fun ack => (by cases ack)⟩
  | lost =>
    exact ⟨.inr rfl, rfl, ⟨fun bound => by simp [Res.ret, unbound] at bound, fun ack => (by cases ack)⟩,
      fun ack => (by cases ack)⟩

theorem Tidy.answered {port : Port} {answer : BindAnswer} (tidy : Tidy sys) (block : sys.tcbs id = some ⟨s, []⟩)
    (unbound : s.bound = false) (answered : Answered s port answer c'.tcb)
    (own : (bindsOf uppers id).Perm (if answer = .ack then [⟨ipprotoTcp, tcpBindKey port 0#16, id⟩] else []))
    (rest : ∀ other, other ≠ id → (bindsOf uppers other).Perm (bindsOf sys.uppers other)) :
    Tidy ⟨(sys.set id c').tcbs, sys.table, uppers⟩ := by
  apply tidy.rebound block unbound answered.idle
  · exact answered.backlog.trans ((tidy.fits id _ block).backlog unbound)
  · split at own
    next ack =>
      rw [ownBind_bound (answered.bound.mpr ack), answered.port ack]
      exact own
    next other =>
      rw [ownBind_unbound (Bool.eq_false_iff.mpr fun bound => other (answered.bound.mp bound))]
      exact own
  · exact rest

/-- A bind changes a block without one; IP's answer and its table agree unless the answer is lost. -/
theorem Tidy.bind {port : Port} {asked answered : Bool} (tidy : Tidy sys) (block : sys.tcbs id = some ⟨s, []⟩)
    (ok : tended sys (.bind id port asked answered) = true) : Tidy (sys.bind env id s port asked answered) := by
  rw [System.bind]
  split
  · exact tidy
  next free =>
    have unbound : s.bound = false := Bool.not_eq_true _ ▸ free
    have none : bindsOf sys.uppers id = [] := by
      rw [tidy.binds, block]
      exact ownBind_unbound unbound
    have reply (answer : BindAnswer) := handleBindReq_answered env port answer unbound
    cases asked with
    | false => exact tidy.answered block unbound (reply _) (.of_eq none) fun _ _ => .refl _
    | true =>
      obtain rfl : answered = true := by simpa [tended] using ok
      simp only [bindAt]
      cases added : ipBind sys.uppers ⟨ipprotoTcp, tcpBindKey port 0#16, id⟩ with
      | none => exact tidy.answered block unbound (reply _) (.of_eq none) fun _ _ => .refl _
      | some uppers =>
        have own := bindsOf_own (ipBind_perm added) rfl
        rw [none] at own
        exact tidy.answered block unbound (reply _) own fun _ ne => bindsOf_cons (ipBind_perm added) (.inr (Ne.symm ne))

theorem tcpFindChild_none {lport : Port} {rip : Ip} {rport : Port} (missing : tcpFindChild sys lport rip rport = none)
    (member : id ∈ sys.table.toList) (block : sys.tcbs id = some c) (synced : c.tcb.state.synced = true) :
    c.tcb.connects lport rip rport = false := by
  have rejected := List.find?_eq_none.mp missing id member
  rw [blockIs_eq block, synced] at rejected
  exact Bool.eq_false_iff.mpr rejected

/-- The head of a listener's backlog becomes the connection of a block without a bind. -/
theorem Tidy.acceptInto {l child : Nat} {t : Tcb} {iss : Word} (tidy : Tidy sys) (listener : sys.tcbs l = some ⟨s, []⟩)
    (closed : sys.tcbs child = some ⟨t, []⟩) (listening : s.state = .listen) (queued : 0 < s.pendingCount)
    (member : child ∈ sys.table.toList) (other : child ≠ l) (state : t.state = .closed)
    (ok : tended sys (.connRes l child iss) = true) : Tidy (sys.acceptInto net env l child s t iss).1 := by
  rw [tended, blockIs_eq closed, blockIs_eq listener, Bool.and_eq_true, Bool.not_eq_true', Bool.not_eq_true',
    Option.isSome_eq_false_iff, Option.isNone_iff_eq_none] at ok
  obtain ⟨unbound, missing⟩ := ok
  have bound : s.bound = true := by
    by_contra free
    have empty := (tidy.fits l _ listener).backlog (Bool.eq_false_iff.mpr free)
    simp only at empty
    omega
  have popped : Tidy (sys.set l ⟨(popPending s).2, []⟩) := tidy.stays listener (popPending_stays s)
  have closed' : (sys.set l ⟨(popPending s).2, []⟩).tcbs child = some ⟨t, []⟩ := (set_of_ne _ other).trans closed
  have stays : Stays (acceptBlock net t s.localPort (popPending s).1 iss)
      (acceptChild net env t s.localPort (popPending s).1 iss).tcb :=
    sendLast_stays rfl
  have before := popped.binds child
  rw [closed', ownBind_unbound unbound] at before
  refine popped.write closed' ?_ (fun _ _ => rfl) (Fits.stays ⟨?_, ?_, ?_, ?_, ?_, ?_⟩ stays)
    fun _ _ _ _ _ listens => ?_
  · rw [ownBind_unbound (stays.bound.trans unbound)]
    exact before
  · exact fun _ => (tidy.fits child _ closed).backlog unbound
  · exact fun _ => member
  · exact fun _ => ⟨l, ⟨(popPending s).2, []⟩, Ne.symm other, set_self .., bound, listening, rfl⟩
  · intro _ this e ne found accepted
    by_cases same : this = l
    · subst same
      rw [set_self, Option.some.injEq] at found
      subst found
      have synced : s.state.synced = true := accepted.2
      rw [listening] at synced
      cases synced
    · rw [set_of_ne _ same] at found
      exact tcpFindChild_none missing ((tidy.fits this e found).registered accepted) found accepted.2
  · intro own
    rw [show t.bound = true from own] at unbound
    cases unbound
  · exact fun _ listens => nomatch listens.2.1
  · have wrong : t.state = .listen := listens.2.1
    rw [state] at wrong
    cases wrong

end Moves

section Runs

variable {net : Interfaces} {env : Env} {sys sys' : System} {move : SysMove} {sent : List Segment} {id : Nat} {c : Conf}

variable (net env sys) in
-- What a move does, with what it needed.
inductive Moved : SysMove → System → Prop where
  | nothing {move : SysMove} : Moved move sys
  | opened {id : Nat} : sys.tcbs id = none → Moved (.openStream id) (sys.qopen id)
  | closed {id : Nat} {told : Bool} {s : Tcb} : sys.tcbs id = some ⟨s, []⟩ →
      Moved (.close id told) (sys.qclose id s told)
  | bound {id : Nat} {port : Port} {asked answered : Bool} {s : Tcb} : sys.tcbs id = some ⟨s, []⟩ →
      Moved (.bind id port asked answered) (sys.bind env id s port asked answered)
  | accepted {l child : Nat} {iss : Word} {s t : Tcb} : sys.tcbs l = some ⟨s, []⟩ → sys.tcbs child = some ⟨t, []⟩ →
      s.state = .listen → 0 < s.pendingCount → child ∈ sys.table.toList → child ≠ l → t.state = .closed →
      Moved (.connRes l child iss) (sys.acceptInto net env l child s t iss).1
  | handled {id : Nat} {e : Event} {s : Tcb} : e.alone = true → sys.tcbs id = some ⟨s, []⟩ →
      Moved (.user id e) (sys.set id ((handle net env s e).conf []))
  | arrived {q id : Nat} {seg : Segment} {c : Conf} : q ∈ ipDemux sys.uppers ipprotoTcp → Hands sys q seg id →
      sys.tcbs id = some c → Moved (.deliver q seg) (sys.set id ((arrive net env c.tcb seg).conf c.stack))
  | resumed {id : Nat} {s : Tcb} {frame : Frame} {below : List Frame} : sys.tcbs id = some ⟨s, frame :: below⟩ →
      Moved (.resume id) (sys.set id ((resume net env s frame).conf below))
  | rebound {move : SysMove} {uppers : Uppers} : (∀ id, (bindsOf uppers id).Perm (bindsOf sys.uppers id)) →
      Moved move { sys with uppers := uppers }

theorem passAt_some {label : Label} (made : passAt net env sys id label = some (sys', sent)) :
    ∃ c res below, sys.tcbs id = some c ∧ pass net env c label = some (res, below) ∧
      sys' = sys.set id (res.conf below) := by
  unfold passAt at made
  split at made
  · cases made
  next c block =>
    split at made
    · cases made
    next res below ran =>
      cases made
      exact ⟨c, res, below, block, ran, rfl⟩

theorem sysStep_moved (made : sysStep net env sys move = some (sys', sent)) : Moved net env sys move sys' := by
  unfold sysStep at made
  split at made
  · split at made
    next free =>
      cases made
      exact .opened free
    · cases made
  · split at made
    next block =>
      cases made
      exact .closed block
    · cases made
  · split at made
    next block =>
      cases made
      exact .bound block
    · cases made
  · split at made
    next listener closed =>
      split at made
      next accepts =>
        obtain ⟨listening, queued, member, other, state⟩ := accepts
        obtain rfl : (System.acceptInto net env sys _ _ _ _ _).1 = sys' := congrArg Prod.fst (Option.some.inj made)
        exact .accepted listener closed listening queued member other state
      · cases made
        exact .nothing
    · cases made
  · obtain ⟨alone, made⟩ := Option.ite_none_right_eq_some.mp made
    obtain ⟨⟨s, stack⟩, res, below, block, ran, rfl⟩ := passAt_some made
    cases stack with
    | nil =>
      cases ran
      exact .handled alone block
    | cons frame rest => cases ran
  · obtain ⟨member, made⟩ := Option.ite_none_right_eq_some.mp made
    split at made
    · cases made
      exact .nothing
    · cases made
      exact .nothing
    next verdict =>
      obtain ⟨c, res, below, block, ran, rfl⟩ := passAt_some made
      cases ran
      exact .arrived member (dispatch_hands.mp verdict) block
  · obtain ⟨⟨s, stack⟩, res, below, block, ran, rfl⟩ := passAt_some made
    cases stack with
    | nil => cases ran
    | cons frame rest =>
      cases ran
      exact .resumed block
  · obtain ⟨foreign, ⟨⟩⟩ := Option.ite_none_left_eq_some.mp made
    refine .rebound fun this => ?_
    cases added : ipBind sys.uppers _ with
    | none => exact .refl _
    | some uppers => exact bindsOf_cons (ipBind_perm added) (.inl foreign)
  · split at made
    · cases made
    next upper foreign =>
      cases made
      refine .rebound fun this => ?_
      by_cases held : upper ∈ sys.uppers.toList
      · exact (bindsOf_cons (SlotTable.remove_perm held) (.inl foreign)).symm
      · rw [ipUnbind, SlotTable.remove_of_not_mem held]

theorem handleBindReq_sent (env : Env) (s : Tcb) (port : Port) (answer : BindAnswer) :
    (handleBindReq env s port answer).sent = none := by
  rw [handleBindReq]
  split
  · rfl
  · cases answer <;> rfl

-- The block has been reached by some passes of its own.
def Ran (net : Interfaces) (c : Conf) : Prop := Reach net (fun _ _ _ => True) c

theorem Ran.handle {s : Tcb} (ran : Ran net ⟨s, []⟩) (env : Env) (e : Event) : Ran net ((handle net env s e).conf []) :=
  @Reach.next net _ _ env (.event e) _ _ ran trivial rfl

theorem Ran.arrive (ran : Ran net c) (env : Env) (seg : Segment) : Ran net ((arrive net env c.tcb seg).conf c.stack) :=
  @Reach.next net _ _ env (.arrive seg) _ _ ran trivial rfl

theorem Ran.resume {s : Tcb} {frame : Frame} {below : List Frame} (ran : Ran net ⟨s, frame :: below⟩) (env : Env) :
    Ran net ((resume net env s frame).conf below) :=
  @Reach.next net _ _ env .resume _ _ ran trivial rfl

theorem Ran.set {new : Conf} (all : ∀ id c, sys.tcbs id = some c → Ran net c) (id : Nat) (ran : Ran net new) :
    ∀ this d, (sys.set id new).tcbs this = some d → Ran net d := by
  intro this d found
  by_cases same : this = id
  · rw [same, set_self, Option.some.injEq] at found
    exact found ▸ ran
  · rw [set_of_ne new same] at found
    exact all this d found

/-- Every block of a system has been reached by passes of its own. -/
theorem Moved.ran (moved : Moved net env sys move sys') (all : ∀ id c, sys.tcbs id = some c → Ran net c) :
    ∀ id c, sys'.tcbs id = some c → Ran net c := by
  cases moved with
  | nothing | rebound => exact all
  | @opened id _ => exact Ran.set all id .start
  | @closed id told s block =>
    intro this d found
    by_cases same : this = id
    · rw [same, qclose_self] at found
      cases found
    · rw [qclose_of_ne told this same] at found
      exact all this d found
  | @bound id port asked answered s block =>
    rw [System.bind]
    split
    · exact all
    · have answer := (all id _ block).handle env
        (.bindReq port (bindAt sys.uppers ⟨ipprotoTcp, tcpBindKey port 0#16, id⟩ asked answered).2)
      rw [handle, Res.conf, handleBindReq_sent] at answer
      exact Ran.set all id answer
  | @accepted l child iss s t listener closed listening queued _ other state =>
    have popped := (all l _ listener).handle env .connRes
    rw [handle, if_pos ⟨listening, queued⟩] at popped
    have accepted := (all child _ closed).handle env (.accept s.localPort (popPending s).1 iss)
    rw [handle, if_pos state] at accepted
    exact Ran.set (Ran.set all l popped) child accepted
  | @handled id e s _ block => exact Ran.set all id ((all id _ block).handle env e)
  | @arrived q id seg c _ _ block => exact Ran.set all id ((all id c block).arrive env seg)
  | @resumed id s frame below block => exact Ran.set all id ((all id _ block).resume env)

theorem SysReach.ran {ok : System → SysMove → Bool} (reached : SysReach net ok sys) :
    ∀ id c, sys.tcbs id = some c → Ran net c := by
  induction reached with
  | start =>
    intro id c found
    exact absurd found (Option.some_ne_none c).symm
  | next _ _ made ih => exact (sysStep_moved made).ran ih

theorem Moved.tidy (moved : Moved net env sys move sys') (tidy : Tidy sys) (ok : tended sys move = true)
    (all : ∀ id c, sys.tcbs id = some c → Ran net c) : Tidy sys' := by
  cases moved with
  | nothing => exact tidy
  | rebound same => exact tidy.bindsSame same
  | opened free => exact tidy.qopen free
  | closed block => exact tidy.qclose block ok
  | bound block => exact tidy.bind block ok
  | accepted listener closed listening queued member other state =>
    exact tidy.acceptInto listener closed listening queued member other state ok
  | handled alone block => exact tidy.placed block ok (handle_placed _ alone)
  | arrived member hands block =>
    apply tidy.taken block
    cases hands with
    | itself =>
      obtain ⟨d, found, bound⟩ := tidy.bound_of_mem member
      rw [block, Option.some.injEq] at found
      exact .inl (found ▸ bound)
    | child _ _ _ _ found =>
      obtain ⟨-, d, held, synced, -⟩ := tcpFindChild_some found
      rw [block, Option.some.injEq] at held
      exact .inr (held ▸ synced)
  | resumed block => exact tidy.stays block (resume_stays (all _ _ block).shape)

theorem noStreams_tidy : Tidy noStreams := by
  constructor
  · intro id c found
    exact absurd found (Option.some_ne_none c).symm
  · intro id
    rfl

theorem SysReach.tidy (reached : SysReach net tended sys) : Tidy sys := by
  induction reached with
  | start => exact noStreams_tidy
  | next reached ok made ih => exact (sysStep_moved made).tidy ih ok reached.ran

/-- How often the fan-out of a datagram enters the state machine of a block. -/
def deliveries (sys : System) (packet : Packet) (id : Nat) : Nat :=
  match packet.decode with
  | none => 0
  | some seg => (ipDemux sys.uppers ipprotoTcp).countP fun q => dispatch sys q seg = .handed id

theorem TcpState.live_of_synced {state : TcpState} (synced : state.synced = true) : state.live = true := by
  cases state <;> simp_all [TcpState.live, TcpState.synced]

theorem Tidy.finds {lport : Port} {rip : Ip} {rport : Port} (tidy : Tidy sys) (block : sys.tcbs id = some c)
    (accepted : c.tcb.accepted) (connects : c.tcb.connects lport rip rport = true) :
    tcpFindChild sys lport rip rport = some id := by
  have fits := tidy.fits id c block
  obtain ⟨port, ip, remote⟩ : c.tcb.localPort = lport ∧ c.tcb.remoteIp = rip ∧ c.tcb.remotePort = rport := by
    simpa [Tcb.connects, and_assoc] using connects
  cases found : tcpFindChild sys lport rip rport with
  | none =>
    have missed := tcpFindChild_none found (fits.registered accepted) block accepted.2
    rw [connects] at missed
    cases missed
  | some other =>
    obtain ⟨-, d, held, synced, same⟩ := tcpFindChild_some found
    by_contra ne
    have ne : other ≠ id := fun equal => ne (congrArg some equal)
    cases bound : d.tcb.bound with
    | false =>
      -- Two accepted connections with the same addresses and ports.
      have apart := fits.unique accepted other d ne held ⟨bound, synced⟩
      rw [port, ip, remote, same] at apart
      cases apart
    | true =>
      -- A connection with a bind of its own on the port of the listener.
      obtain ⟨l, e, _, listening, listens⟩ := fits.listener accepted
      have shared : d.tcb.localPort = c.tcb.localPort := by
        simp only [Tcb.connects, Bool.and_eq_true, beq_iff_eq] at same
        exact same.1.1.trans port.symm
      have different : l ≠ other := by
        rintro rfl
        rw [listening, Option.some.injEq] at held
        rw [← held, listens.2.1] at synced
        cases synced
      exact (tidy.fits other d held).direct bound (TcpState.live_of_synced synced) l e different listening
        (shared ▸ listens)

/-- The one stream through which a segment reaches the connection it belongs to. -/
theorem Tidy.way {seg : Segment} (tidy : Tidy sys) (block : sys.tcbs id = some c) (synced : c.tcb.state.synced = true)
    (plain : seg.flags.syn = false) (connects : c.tcb.connects seg.dstPort seg.srcIp seg.srcPort = true) :
    ∃ r d, sys.tcbs r = some d ∧ d.tcb.bound = true ∧
      ∀ q ∈ ipDemux sys.uppers ipprotoTcp, dispatch sys q seg = .handed id ↔ q = r := by
  have port := (connects_iff.mp connects).1
  have fits := tidy.fits id c block
  have live := TcpState.live_of_synced synced
  have notListening : c.tcb.state ≠ .listen := fun listening => by simp [listening, TcpState.synced] at synced
  cases bound : c.tcb.bound with
  | true =>
    refine ⟨id, c, block, bound, fun q member => ?_⟩
    rw [dispatch_hands]
    constructor
    · intro hands
      cases hands with
      | itself => rfl
      | @child d _ found at_port listening =>
        by_contra ne
        obtain ⟨e, again, own⟩ := tidy.bound_of_mem member
        rw [found, Option.some.injEq] at again
        subst again
        exact fits.direct bound live q d ne found ⟨own, listening, at_port.trans port.symm⟩
    · rintro rfl
      exact .itself block port fun listening => absurd listening notListening
  | false =>
    have accepted : c.tcb.accepted := ⟨bound, synced⟩
    obtain ⟨l, d, ne, found, listens⟩ := fits.listener accepted
    refine ⟨l, d, found, listens.1, fun q member => ?_⟩
    obtain ⟨e, held, own⟩ := tidy.bound_of_mem member
    rw [dispatch_hands]
    constructor
    · intro hands
      cases hands with
      | itself again =>
        rw [block, Option.some.injEq] at held
        rw [← held, bound] at own
        cases own
      | @child f _ again at_port listening =>
        rw [again, Option.some.injEq] at held
        subst held
        by_contra other
        exact (tidy.fits l d found).alone _ listens q f other again own (.inr listening) (at_port.trans port.symm)
    · rintro rfl
      exact .child found (listens.2.2.trans port) listens.2.1 plain (tidy.finds block accepted connects)

/-- In a tended run, every well-formed segment without SYN of a connection in SYN_RECEIVED or later enters
the state machine of that connection exactly once. -/
theorem synced_reached_once (net : Interfaces) (sys : System) (reached : SysReach net tended sys) (id : Nat) (c : Conf)
    (block : sys.tcbs id = some c) (synced : c.tcb.state.synced = true) (packet : Packet) (seg : Segment)
    (decoded : packet.decode = some seg) (plain : seg.flags.syn = false)
    (connects : c.tcb.connects seg.dstPort seg.srcIp seg.srcPort = true) : deliveries sys packet id = 1 := by
  obtain ⟨r, d, found, bound, only⟩ := reached.tidy.way block synced plain connects
  rw [deliveries, decoded]
  calc (ipDemux sys.uppers ipprotoTcp).countP (fun q => dispatch sys q seg = .handed id)
      = (ipDemux sys.uppers ipprotoTcp).countP (· == r) := by
        apply List.countP_congr
        intro q member
        simpa using only q member
    _ = 1 := reached.tidy.count found bound

end Runs

-- Stream 0 listens on port 7 and stream 1 accepts a connection from port 80 of 10.0.0.2.
def acceptLan : List (Env × SysMove) :=
  [(.calm 1#32, .openStream 0), (.calm 1#32, .bind 0 7#16 true true), (.calm 1#32, .user 0 .listenReq),
   (.calm 1#32, .openStream 1), (.calm 1#32, .deliver 0 (fromLan flagSyn 99#32 0#32 [])),
   (.calm 2#32, .connRes 0 1 0#32), (.calm 2#32, .resume 1),
   (.calm 3#32, .deliver 0 (fromLan flagAck 100#32 1#32 []))]

def acceptedLan : System := sysRun lan noStreams acceptLan

-- The next segment of that connection, an acknowledgement with one byte, without a checksum.
def nextPacket : Packet :=
  ⟨0x0a000002#32, 0x0a000001#32, [0, 80, 0, 7, 0, 0, 0, 100, 0, 0, 0, 1, 0x50, 0x10, 16, 0, 0, 0, 0, 0, 65]⟩

def nextSegment : Segment :=
  ⟨0x0a000002#32, 0x0a000001#32, 80#16, 7#16, 100#32, 1#32, flagAck, 4096#16, [], [65#8]⟩

theorem synced_reached_once_accepted : deliveries acceptedLan nextPacket 1 = 1 := by
  have tended : SysRunOk lan tended noStreams acceptLan = true := by decide +kernel
  obtain ⟨c, block⟩ : ∃ c, acceptedLan.tcbs 1 = some c := Option.isSome_iff_exists.mp (by decide +kernel)
  have here : acceptedLan.blockIs (fun s => s.state.synced && s.connects 7#16 0x0a000002#32 80#16) 1 = true := by
    decide +kernel
  rw [blockIs_eq block, Bool.and_eq_true] at here
  exact synced_reached_once lan acceptedLan (.run acceptLan .start tended) 1 c block here.1 nextPacket nextSegment
    (by decide +kernel) rfl here.2

/-- When the listener has been closed, segments of the connection it accepted reach nobody. -/
theorem closed_listener_strands_connection : ∃ sys c, SysReach lan (fun _ _ => true) sys ∧ sys.tcbs 1 = some c ∧
    c.tcb.state = .established ∧ nextPacket.decode = some nextSegment ∧ nextSegment.flags.syn = false ∧
    c.tcb.connects nextSegment.dstPort nextSegment.srcIp nextSegment.srcPort = true ∧
      deliveries sys nextPacket 1 = 0 := by
  let moves := acceptLan ++ [(Env.calm 4#32, SysMove.close 0 true)]
  let sys := sysRun lan noStreams moves
  obtain ⟨c, block⟩ : ∃ c, sys.tcbs 1 = some c := Option.isSome_iff_exists.mp (by decide +kernel)
  have here : sys.blockIs (fun s => s.state == .established && s.connects 7#16 0x0a000002#32 80#16) 1 = true := by
    decide +kernel
  rw [blockIs_eq block, Bool.and_eq_true, beq_iff_eq] at here
  exact ⟨sys, c, .run moves .start (by decide +kernel), block, here.1, by decide +kernel, rfl,
    here.2, by decide +kernel⟩

end Kappara.Tcp
