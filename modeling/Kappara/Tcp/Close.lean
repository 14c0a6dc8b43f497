import Kappara.Tcp.Pair

/-! Orderly release and the end of the stream.

The FIN takes the number snd_nxt, whatever is still queued behind it. It stands
after the last accepted byte exactly when the whole queue has been sent before
T_ORDREL_REQ; then the receiver cannot take it too early. -/

set_option autoImplicit false

namespace Kappara.Tcp

open BlockChain Net Serial

instance (h : Host) (label : Label) : Decidable (closesClean h label) := inferInstanceAs (Decidable (_ → _))

section Release

variable {net : Interfaces} {env : Env} {c : Conf} {res : Res} {below : List Frame}

theorem ordrelReq_control (ran : pass net env c (.event .ordrelReq) = some (res, below))
    (sending : c.tcb.state.mode = .sending) :
    c.stack = [] ∧ ∃ state : TcpState, Control net env (c.tcb.setState state) flagAckFin res := by
  obtain ⟨s, stack⟩ := c
  cases stack with
  | cons frame rest => cases ran
  | nil =>
    cases ran
    refine ⟨rfl, ?_⟩
    rw [handle, handleOrdrelReq]
    cases state : s.state with
    | established => exact ⟨.finWait1, control_spec net env _ _⟩
    | closeWait => exact ⟨.lastAck, control_spec net env _ _⟩
    | _ => simp [state, TcpState.mode] at sending

theorem Sender.fin_seq {base : Word} {stream : List Byte} {got : Nat} {out : List Segment} {a n : Nat} {seg : Segment}
    (inv : Sender base stream got out c a n) (ran : pass net env c (.event .ordrelReq) = some (res, below))
    (sending : c.tcb.state.mode = .sending) (sent : AllSent c.tcb) (small : stream.length < 2 ^ 31)
    (emitted : seg ∈ res.segments) : seg.flags.fin = true ∧ seg.seq = pos base stream.length := by
  obtain ⟨s, stack⟩ := c
  obtain ⟨rfl, state, control⟩ := ordrelReq_control ran sending
  have last := inv.allSent sending sent small
  rw [control.segment emitted, ← last]
  exact ⟨rfl, inv.nxt⟩

end Release

/-- If every T_ORDREL_REQ at one side finds its queue sent, the other side tells T_ORDREL_IND after all the
bytes accepted there, and the FIN stands right behind them. -/
theorem release_after_stream (netA netB : Interfaces) (a b : Host)
    (reached : PairReach netA netB closesClean (fun _ _ => True) a b) :
    (∀ pre post, b.ups = pre ++ Ind.ordrelInd :: post → a.accepted <+: bytes pre) ∧
      ∀ env res below, a.conf.tcb.state.mode = .sending → AllSent a.conf.tcb →
        pass netA env a.conf (.event .ordrelReq) = some (res, below) → ∀ seg ∈ res.segments,
          seg.flags.fin = true ∧ seg.seq = a.conf.tcb.sndIss + 1#32 + BitVec.ofNat 32 a.accepted.length := by
  have way := reached.way fun _ _ clean => clean
  constructor
  · intro pre post told
    rcases way with dir | done
    · have absent := dir.untold
      rw [told] at absent
      simp at absent
    · exact done.told pre post told
  · intro env res below sending sent ran seg emitted
    rcases way with dir | done
    · cases dir.half with
      | silent silent => exact absurd sending silent.unopened.not_sending
      | opened _ _ sender => exact sender.fin_seq ran sending sent dir.small emitted
    · rcases done.mode with mode | mode <;> simp [mode] at sending

def releaseLan (queued : Nat) : List (Bool × Env × Move) := connectLan queued ++
  [(true, .calm 3#32, .event (.dataReq ⟨[[1#8, 2#8]], oneTwo_small⟩)),
   (true, .calm 3#32, .resume),
   (true, .calm 3#32, .event .ordrelReq),
   (true, .calm 3#32, .resume),
   (false, .calm 4#32, .deliver 2),
   (false, .calm 4#32, .resume),
   (false, .calm 4#32, .deliver 3),
   (false, .calm 4#32, .resume)]

theorem release_after_stream_lan :
    let p := pairRun lan lanPeer (.opened, .opened) (releaseLan 0)
    p.2.ups = [.connCon 0x0a000001#32 7#16, .dataInd [1#8, 2#8]] ++ .ordrelInd :: [] ∧ p.1.accepted <+: [1#8, 2#8] := by
  have told : (pairRun lan lanPeer (.opened, .opened) (releaseLan 0)).2.ups =
      [.connCon 0x0a000001#32 7#16, .dataInd [1#8, 2#8]] ++ .ordrelInd :: [] := by decide +kernel
  have reached : PairReach lan lanPeer closesClean (fun _ _ => True) _ _ :=
    .run (releaseLan 0) (p := (.opened, .opened)) .start (by decide +kernel)
  exact ⟨told, (release_after_stream lan lanPeer _ _ reached).1 _ _ told⟩

/-- A window of one byte holds the second one back; the FIN takes its number and the receiver tells the
end of the stream without it. -/
theorem release_truncates_stream : ∃ a b, PairReach lan lanPeer (fun _ _ => True) (fun _ _ => True) a b ∧
    ∃ pre post, b.ups = pre ++ Ind.ordrelInd :: post ∧ ¬ a.accepted <+: bytes pre := by
  have told : (pairRun lan lanPeer (.opened, .opened) (releaseLan 65534)).2.ups =
      [.connCon 0x0a000001#32 7#16, .dataInd [1#8]] ++ .ordrelInd :: [] := by decide +kernel
  refine ⟨_, _, .run (releaseLan 65534) .start (by decide +kernel), _, _, told, ?_⟩
  exact fun front => absurd front.length_le (by decide)

/-- What one side accepted and the other has not delivered is still queued. -/
theorem undelivered_is_queued (netA netB : Interfaces) (a b : Host)
    (reached : PairReach netA netB closesClean (fun _ _ => True) a b) :
    a.accepted.drop b.delivered.length <:+ a.conf.tcb.sndBuf.flatten := by
  rcases reached.way fun _ _ clean => clean with dir | done
  · cases dir.half with
    | silent silent => simp [silent.accepted]
    | opened _ _ sender =>
      rw [sender.bytes]
      exact List.drop_suffix_drop_left _ sender.acked
  · rw [List.drop_eq_nil_of_le done.all.length_le]
    exact List.nil_suffix

theorem undelivered_is_queued_lan :
    let p := pairRun lan lanPeer (.opened, .opened) oneOfTwo
    p.1.accepted.drop p.2.delivered.length = [2#8] ∧
      p.1.accepted.drop p.2.delivered.length <:+ p.1.conf.tcb.sndBuf.flatten :=
  ⟨by decide +kernel, undelivered_is_queued lan lanPeer _ _ (.run oneOfTwo .start (by decide +kernel))⟩

end Kappara.Tcp
