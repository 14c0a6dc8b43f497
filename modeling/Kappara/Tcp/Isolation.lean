import Kappara.Tcp.Table

/-! What a segment does to the connections it does not belong to.

The port is compared before anything is written, the peer only after the send
window has been taken from the segment. A connection on the same port but with
another peer keeps all its fields exactly if the announced window is the one it
already has. -/

set_option autoImplicit false

namespace Kappara.Tcp

open Net

inductive Hands (sys : System) (q : Nat) (seg : Segment) : Nat → Prop where
  | itself {c : Conf} : sys.tcbs q = some c → c.tcb.localPort = seg.dstPort →
      (c.tcb.state = .listen → seg.flags.syn = true) → Hands sys q seg q
  | child {c : Conf} {id : Nat} : sys.tcbs q = some c → c.tcb.localPort = seg.dstPort → c.tcb.state = .listen →
      seg.flags.syn = false → tcpFindChild sys seg.dstPort seg.srcIp seg.srcPort = some id → Hands sys q seg id

section Dispatch

variable {net : Interfaces} {env : Env} {sys sys' : System} {q id : Nat} {c c' : Conf} {seg : Segment} {s : Tcb}

theorem dispatch_hands : dispatch sys q seg = .handed id ↔ Hands sys q seg id := by
  unfold dispatch
  constructor
  · intro verdict
    split at verdict
    · cases verdict
    next s stack block =>
      split at verdict
      · split at verdict
        · split at verdict <;> cases verdict
        · cases verdict
      next port =>
        rw [not_not] at port
        split at verdict
        next redirect =>
          split at verdict
          · cases verdict
          next child found =>
            cases verdict
            exact .child block port.symm redirect.1 (by simpa using redirect.2) (port ▸ found)
        next kept =>
          cases verdict
          refine .itself block port.symm fun listening => ?_
          simpa [show s.state = .listen from listening] using kept
  · intro hands
    cases hands with
    | @itself c block port syn =>
      obtain ⟨s, stack⟩ := c
      rw [block]
      have kept : ¬ (s.state = .listen ∧ (!seg.flags.syn) = true) := fun redirect => by
        simp [syn redirect.1] at redirect
      simp only [ne_eq, show s.localPort = seg.dstPort from port, not_true_eq_false, if_false, if_neg kept]
    | @child c id block port listening plain found =>
      obtain ⟨s, stack⟩ := c
      rw [block]
      have redirect : s.state = .listen ∧ (!seg.flags.syn) = true := ⟨listening, by rw [plain]; rfl⟩
      simp only [ne_eq, show s.localPort = seg.dstPort from port, not_true_eq_false, if_false, if_pos redirect, found]

theorem tcpFindChild_some {lport : Port} {rip : Ip} {rport : Port}
    (found : tcpFindChild sys lport rip rport = some id) :
    id ∈ sys.table.toList ∧ ∃ c, sys.tcbs id = some c ∧ c.tcb.state.synced = true ∧
      c.tcb.connects lport rip rport = true := by
  refine ⟨List.mem_of_find?_eq_some found, ?_⟩
  have accepted := List.find?_some found
  unfold System.blockIs at accepted
  split at accepted
  · cases accepted
  next c block =>
    rw [Bool.and_eq_true] at accepted
    exact ⟨c, block, accepted.1, accepted.2⟩

theorem connects_iff : s.connects seg.dstPort seg.srcIp seg.srcPort = true ↔ s.localPort = seg.dstPort ∧
    s.fromPeer seg = true := by
  simp only [Tcb.connects, Tcb.fromPeer, Bool.and_eq_true, beq_iff_eq, and_assoc]
  constructor
  · rintro ⟨port, ip, peer⟩
    exact ⟨port, ip.symm, peer.symm⟩
  · rintro ⟨port, ip, peer⟩
    exact ⟨port, ip.symm, peer.symm⟩

theorem arrive_foreign (net : Interfaces) (env : Env) (live : s.state.live = true) (port : s.localPort = seg.dstPort)
    (foreign : s.fromPeer seg = false) : arrive net env s seg = .ret (trackWindow s seg) [] := by
  have other : (trackWindow s seg).fromPeer seg = false := foreign
  have connected : inputConnected net env (trackWindow s seg) seg = .ret (trackWindow s seg) [] := by
    rw [inputConnected, other]
    rfl
  have kept : ¬ (seg.dstPort ≠ s.localPort ∨ (s.state = .listen ∧ !seg.flags.syn)) := by
    rintro (ports | ⟨listening, -⟩)
    · exact ports port.symm
    · simp [listening, TcpState.live] at live
  have track : (trackWindow s seg).state = s.state := rfl
  rw [arrive, if_neg kept, tcpInput, inputState]
  cases state : s.state <;>
    simp_all [TcpState.live, inputSynSent, inputSynReceived, inputTimeWait]

theorem Handles.foreign (handles : Handles net seg c c') (live : c.tcb.state.live = true)
    (port : c.tcb.localPort = seg.dstPort)
    (foreign : c.tcb.fromPeer seg = false) : c' = ⟨trackWindow c.tcb seg, c.stack⟩ := by
  obtain ⟨env, unwinds⟩ := handles
  rw [arrive_foreign net _ live port foreign] at unwinds
  cases unwinds with
  | done => rfl
  | resume higher => exact absurd higher (Nat.lt_irrefl _)

theorem trackWindow_same (same : announced s seg = s.sndWnd) : trackWindow s seg = s := by
  unfold announced at same
  unfold trackWindow
  simp [same]

/-- The block of another connection survives a fan-out in which the windows agree. -/
theorem FansOut.keeps {copies : List Nat} (fans : FansOut net seg copies sys sys') (block : sys.tcbs id = some c)
    (live : c.tcb.state.live = true) (other : c.tcb.connects seg.dstPort seg.srcIp seg.srcPort = false)
    (same : id ∈ copies → c.tcb.localPort = seg.dstPort → announced c.tcb seg = c.tcb.sndWnd) :
    sys'.tcbs id = some c := by
  induction fans with
  | done => exact block
  | passed _ _ ih => exact ih block fun member => same (.tail _ member)
  | @handed q target d d' rest sys sys' verdict held handles _ ih =>
    apply ih
    · by_cases hit : id = target
      · subst hit
        rw [block] at held
        cases held
        cases dispatch_hands.mp verdict with
        | itself found port =>
          rw [block] at found
          cases found
          have foreign : c.tcb.fromPeer seg = false := by
            rw [← Bool.not_eq_true] at other ⊢
            exact fun peer => other (connects_iff.mpr ⟨port, peer⟩)
          rw [handles.foreign live port foreign, trackWindow_same (same List.mem_cons_self port)]
          exact System.set_self ..
        | child _ _ _ _ found =>
          obtain ⟨-, d, held, -, connects⟩ := tcpFindChild_some found
          rw [block] at held
          cases held
          rw [other] at connects
          cases connects
      · exact (System.set_of_ne d' hit).trans block
    · exact fun member => same (.tail _ member)

end Dispatch

/-- Processing a datagram leaves every block from SYN_SENT on that belongs to another connection as it
is, in every course the processing can take, exactly if every bound one on its port already has the window
the segment announces. -/
theorem others_unchanged_iff_same_window (net : Interfaces) (sys : System) (packet : Packet) :
    (∀ sys', Processes net packet sys sys' → ∀ seg, packet.decode = some seg → ∀ id c, sys.tcbs id = some c →
      c.tcb.state.live = true → c.tcb.connects seg.dstPort seg.srcIp seg.srcPort = false → sys'.tcbs id = some c) ↔
    ∀ seg, packet.decode = some seg → ∀ id ∈ ipDemux sys.uppers ipprotoTcp, ∀ c, sys.tcbs id = some c →
      c.tcb.state.live = true → c.tcb.localPort = seg.dstPort → c.tcb.fromPeer seg = false →
      announced c.tcb seg = c.tcb.sndWnd := by
  constructor
  · intro kept seg decoded id bound c block live port foreign
    have other : c.tcb.connects seg.dstPort seg.srcIp seg.srcPort = false := by
      rw [← Bool.not_eq_true]
      intro connects
      rw [(connects_iff.mp connects).2] at foreign
      cases foreign
    have verdict : dispatch sys id seg = .handed id := by
      refine dispatch_hands.mpr (.itself block port fun listening => ?_)
      simp [listening, TcpState.live] at live
    -- A run in which only this stream gets its copy already shows the difference.
    have handles : Handles net seg c ⟨trackWindow c.tcb seg, c.stack⟩ := by
      refine .intro (Env.calm 0#32) ?_
      rw [arrive_foreign net _ live port foreign]
      exact .done rfl
    have after := kept _ (.taken decoded (List.singleton_sublist.mpr bound) (.handed verdict block handles .done)) seg
      decoded id c block live other
    rw [System.set_self] at after
    exact congrArg (fun c => c.tcb.sndWnd) (Option.some.inj after)
  · intro same sys' processed seg decoded id c block live other
    cases processed with
    | dropped rejected =>
      rw [decoded] at rejected
      cases rejected
    | taken decoded' copies fans =>
      rw [decoded] at decoded'
      cases decoded'
      refine fans.keeps block live other fun member port => ?_
      refine same seg decoded id (copies.subset member) c block live port ?_
      rw [← Bool.not_eq_true] at other ⊢
      exact fun peer => other (connects_iff.mpr ⟨port, peer⟩)

-- An active open from port 7 to port 80 of 10.0.0.2, up to ESTABLISHED with a window of 4096.
def activeLan : List (Env × Label) :=
  [(.calm 1#32, .event (.bindReq 7#16 .ack)),
   (.calm 1#32, .event (.connReq 0x0a000002#32 80#16 0#32)),
   (.calm 1#32, .resume),
   (.calm 2#32, .arrive (fromLan flagSynAck 99#32 1#32 [])),
   (.calm 2#32, .resume)]

-- That connection alone, bound to port 7.
def oneStream : System where
  tcbs := Function.update (fun _ => none) 0 (some (run lan fresh activeLan))
  table := Function.update SlotTable.empty 0 (some 0)
  uppers := Function.update SlotTable.empty 0 (some ⟨ipprotoTcp, 0x70000#32, 0⟩)

-- An acknowledgement with window 0 from port 99 of 10.0.0.3 to port 7, without a checksum.
def strayPacket : Packet :=
  ⟨0x0a000003#32, 0x0a000001#32, [0, 99, 0, 7, 0, 0, 0, 0, 0, 0, 0, 0, 0x50, 0x10, 0, 0, 0, 0, 0, 0]⟩

/-- A segment of another host closes the send window of the connection on its port. -/
theorem stray_segment_closes_window : ∃ sys' seg c, Processes lan strayPacket oneStream sys' ∧
    strayPacket.decode = some seg ∧
    oneStream.tcbs 0 = some c ∧ c.tcb.state.live = true ∧ c.tcb.connects seg.dstPort seg.srcIp seg.srcPort = false ∧
    sys'.tcbs 0 ≠ some c := by
  let seg : Segment := ⟨0x0a000003#32, 0x0a000001#32, 99#16, 7#16, 0#32, 0#32, flagAck, 0#16, [], []⟩
  let c := run lan fresh activeLan
  have decoded : strayPacket.decode = some seg := by decide +kernel
  have copies : ipDemux oneStream.uppers ipprotoTcp = [0] := by decide +kernel
  have block : oneStream.tcbs 0 = some c := rfl
  have live : c.tcb.state.live = true := by decide +kernel
  have verdict : dispatch oneStream 0 seg = .handed 0 := by decide +kernel
  have handles : Handles lan seg c ⟨trackWindow c.tcb seg, c.stack⟩ := by
    refine .intro (Env.calm 3#32) ?_
    exact .done rfl
  refine ⟨_, seg, c, .taken decoded (copies ▸ List.Sublist.refl _) (.handed verdict block handles .done), decoded,
    block, live, by decide +kernel, ?_⟩
  intro same
  have window := congrArg (fun c => c.tcb.sndWnd) (Option.some.inj same)
  exact absurd window (by decide +kernel)

end Kappara.Tcp
