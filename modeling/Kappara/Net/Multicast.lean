import Kappara.Net.Arrival

/-! What the streams of one datagram get to see.

The copies of a datagram share its buffer, and the streams are served one after
another. As long as no stream answers an echo request the bytes stay those that
came in; once one has, those served later see the reply. -/

set_option autoImplicit false

namespace Kappara.Net

open Streams

variable {modules : Nat → Module} {shares : Nat → Share} {hdr : Nat → Byte} {h : Heap} {mp : Addr} {mb : Mblk}
  {db : Dblk} {chain : List Addr} {j : Nat} {uppers : Uppers} {drops : Drops}

def Call.seen (call : Call) : List Byte := front call.bytes call.body.len.toNat

def payloadOf (hdr : Nat → Byte) (i : Nat) : Byte := hdr (ihlBytes hdr + i)

def payload (hdr : Nat → Byte) : List Byte := front (payloadOf hdr) (totalLen hdr - ihlBytes hdr)

theorem front_congr {bytes bytes' : Nat → Byte} {n n' : Nat} (same : front bytes n = front bytes' n') :
    n = n' ∧ ∀ i < n, bytes i = bytes' i := by
  have length : n = n' := by simpa [front] using congrArg List.length same
  subst length
  refine ⟨rfl, ?_⟩
  intro i inside
  have here := congrArg (fun l => l[i]?) same
  simpa [front, inside] using here

theorem body_len {rptr ihl total : Nat} {mb : Mblk} (small : rptr + total ≤ kmallocMax) (header : ihl ≤ 60)
    (start : mb.rptr = rptr + ihl) (stop : mb.wptr = rptr + total) : mb.len.toNat = total - ihl ↔ ihl ≤ total := by
  rw [kmallocMax] at small
  rw [Mblk.len, BitVec.toNat_sub, BitVec.toNat_ofNat, BitVec.toNat_ofNat, start, stop]
  omega

theorem ihlBytes_le (hdr : Nat → Byte) : ihlBytes hdr ≤ 60 := by
  have bound : (hdr 0 &&& 0xf#8).toNat ≤ 15 := by
    rw [BitVec.toNat_and]
    exact Nat.and_le_right
  rw [ihlBytes]
  omega

theorem Trimmed.shows {h₁ : Heap} {mb₁ : Mblk} {chain₁ : List Addr}
    (trimmed : Trimmed h mp mb chain (totalLen (h.load mb)) h₁ mb₁ chain₁)
    (arrives : Arrives h mp mb db chain) (total : totalLen (h.load mb) ≤ mb.len.toNat) :
    (h₁.advance mp (ihlBytes (h.load mb))).load { mb₁ with rptr := mb₁.rptr + ihlBytes (h.load mb) } =
    payloadOf (h.load mb) ∧
      (({ mb₁ with rptr := mb₁.rptr + ihlBytes (h.load mb) } : Mblk).len.toNat =
        totalLen (h.load mb) - ihlBytes (h.load mb) ↔ ihlBytes (h.load mb) ≤ totalLen (h.load mb)) := by
  have room := arrives.sound.room mb.datap db arrives.found
  have inside := arrives.inside
  have ordered := arrives.ordered
  have received := arrives.len
  have small : mb.rptr + totalLen (h.load mb) ≤ kmallocMax := by omega
  refine ⟨?_, body_len small (ihlBytes_le (h.load mb)) (by rw [trimmed.rptr]) trimmed.wptr⟩
  funext i
  have here := congrFun trimmed.load (ihlBytes (h.load mb) + i)
  simpa [Heap.load, Heap.content, payloadOf, trimmed.datap, trimmed.rptr, Nat.add_assoc] using here

/-- When all allocations succeed, the put procedure of every match is called once. Each sees the payload
that came in exactly when there is no match, or the header is within the datagram and none of the streams
served before the last answers it as an echo request. -/
theorem copies_show_payload_iff (arrives : Arrives h mp mb db chain) (passed : accepted mb.len.toNat (h.load mb) = true)
    (served : AllServed shares (ipDemux uppers (protoOf (h.load mb))).length (blocksKept mb (h.load mb) chain))
    (possible : ipRput modules uppers shares h drops (some mp) ≠ .error .taken) :
    ∃ out, ipRput modules uppers shares h drops (some mp) = .ok out ∧
      out.calls.map Call.rq = ipDemux uppers (protoOf (h.load mb)) ∧
      ((∀ call ∈ out.calls, call.seen = payload (h.load mb)) ↔ ipDemux uppers (protoOf (h.load mb)) = [] ∨
        ihlBytes (h.load mb) ≤ totalLen (h.load mb) ∧ ∀ rq ∈ (ipDemux uppers (protoOf (h.load mb))).dropLast,
          (modules rq).answers (totalLen (h.load mb) - ihlBytes (h.load mb)) (payloadOf (h.load mb)) = false) := by
  obtain ⟨h₁, mb₁, chain₁, trimmed, handed⟩ := @Arrives.accept modules shares _ _ _ _ _ uppers drops arrives passed
  rw [handed] at possible ⊢
  rw [blocksKept, ← trimmed.blocks] at served
  obtain ⟨h', calls, run, -, fits, -, -, views⟩ :=
    ipDemuxPut_run trimmed.sound.advance trimmed.message.advance (advance_cells trimmed.here) (handUp_taken possible)
  obtain ⟨named, quiet, loud⟩ := views served
  refine ⟨⟨h', drops, calls⟩, by rw [run]; rfl, named, ?_⟩
  obtain ⟨load, length⟩ := trimmed.shows arrives (accepted_within passed).2
  rw [load] at quiet loud
  constructor
  · intro seen
    by_cases none : ipDemux uppers (protoOf (h.load mb)) = []
    · exact .inl none
    · have some : calls ≠ [] := by
        rintro rfl
        exact none named.symm
      obtain ⟨call, member⟩ := List.exists_mem_of_ne_nil calls some
      have within : ihlBytes (h.load mb) ≤ totalLen (h.load mb) := by
        rw [← length, ← (fits call member).len]
        exact (front_congr (seen call member)).1
      refine .inr ⟨within, ?_⟩
      intro rq early
      rw [← Bool.not_eq_true]
      intro answers
      obtain ⟨long, request⟩ := Module.answers_request answers
      rw [icmpHdrLen] at long
      obtain ⟨call, member, reply⟩ := loud ⟨rq, early, by rw [length.mpr within]; exact answers⟩
      obtain ⟨size, same⟩ := front_congr (seen call member)
      have first := same 0 (by omega)
      rw [reply, request] at first
      cases first
  · rintro (none | ⟨within, none⟩) call member
    · rw [none, List.map_eq_nil_iff] at named
      simp [named] at member
    · rw [length.mpr within] at quiet
      rw [Call.seen, quiet none call member, (fits call member).len, length.mpr within]
      rfl

section Inputs

def echoRequest : List Byte := [0x45, 0, 0, 28, 0, 0, 0, 0, 64, 1, 0x66, 0xdf, 10, 0, 0, 1, 10, 0, 0, 2, 8, 0, 0xf7,
    0xfd, 0, 1, 0, 1]

def twoUppers : Uppers := fun slot => if slot = 0 then some ⟨1#8, 0#32, 0⟩
    else if slot = 1 then some ⟨1#8, 0#32, 1⟩ else none

def twoShares (j : Nat) : Share :=
  if j = 0 then ⟨[2], ⟨some 1, some 1, some 1, fun _ => 0#8⟩, ⟨false, fun _ => 0#8⟩⟩
  else ⟨[], ⟨some 1, some 1, some 1, fun _ => 0#8⟩, ⟨false, fun _ => 0#8⟩⟩

def lastAnswers (rq : Nat) : Module := if rq = 1 then .icmp 1#16 else .icmp 2#16

def firstAnswers (rq : Nat) : Module := if rq = 0 then .icmp 1#16 else .icmp 2#16

def answeredLast (h : Heap) : Bool :=
  let hdr := h.load (receivedBlock echoRequest)
  arrived echoRequest h && accepted (receivedBlock echoRequest).len.toNat hdr && ihlBytes hdr ≤ totalLen hdr &&
    ipDemux twoUppers (protoOf hdr) == [0, 1] && blocksKept (receivedBlock echoRequest) hdr [0] == 1 &&
    (lastAnswers 0).answers (totalLen hdr - ihlBytes hdr) (payloadOf hdr) == false &&
    (ipRput lastAnswers twoUppers twoShares h (fun _ => 0#64) (some 0)).isOk

theorem twoShares_served : AllServed twoShares 2 1 := by
  constructor
  · intro j early
    have zero : j = 0 := by omega
    rw [zero]
    rfl
  · rfl

theorem copies_show_payload_iff_last_answers :
    ∃ h out, arrived echoRequest h = true ∧
      ipRput lastAnswers twoUppers twoShares h (fun _ => 0#64) (some 0) = .ok out ∧
      out.calls.map Call.rq = [0, 1] ∧ ∀ call ∈ out.calls, call.seen =
        payload (h.load (receivedBlock echoRequest)) := by
  obtain ⟨h, reached, answered⟩ : ∃ h, Run.Reach Streams.step (fun _ _ => True) (· = Heap.empty) h ∧
      answeredLast h = true :=
    Run.Reach.found (received echoRequest) rfl (by decide +kernel)
  simp only [answeredLast, Bool.and_eq_true, decide_eq_true_eq, beq_iff_eq] at answered
  obtain ⟨⟨⟨⟨⟨⟨here, passes⟩, within⟩, streams⟩, blocks⟩, quiet⟩, ok⟩ := answered
  have possible : ipRput lastAnswers twoUppers twoShares h (fun _ => 0#64) (some 0) ≠ .error .taken := by
    intro taken
    rw [taken] at ok
    cases ok
  have served : AllServed twoShares (ipDemux twoUppers (protoOf (h.load (receivedBlock echoRequest)))).length
      (blocksKept (receivedBlock echoRequest) (h.load (receivedBlock echoRequest)) [0]) := by
    rw [streams, blocks]
    exact twoShares_served
  obtain ⟨out, run, named, seen⟩ := copies_show_payload_iff (arrived_arrives (by decide) reached here) passes served
    possible
  rw [streams] at named seen
  exact ⟨h, out, here, run, named, seen.mpr (.inr ⟨within, by simpa using quiet⟩)⟩

def sawReply (h : Heap) : Bool :=
  let hdr := h.load (receivedBlock echoRequest)
  arrived echoRequest h && accepted (receivedBlock echoRequest).len.toNat hdr && ipDemux twoUppers (protoOf hdr) ==
    [0, 1] && blocksKept (receivedBlock echoRequest) hdr [0] == 1 &&
    match ipRput firstAnswers twoUppers twoShares h (fun _ => 0#64) (some 0) with
    | .error _ => false
    | .ok out => out.calls.any fun call => call.seen != payload hdr

/-- The second stream is given the reply the first one made of the request. -/
theorem second_stream_sees_reply : ∃ h db out call, Arrives h 0 (receivedBlock echoRequest) db [0] ∧
      accepted (receivedBlock echoRequest).len.toNat (h.load (receivedBlock echoRequest)) = true ∧
      AllServed twoShares (ipDemux twoUppers (protoOf (h.load (receivedBlock echoRequest)))).length
        (blocksKept (receivedBlock echoRequest) (h.load (receivedBlock echoRequest)) [0]) ∧
      ipRput firstAnswers twoUppers twoShares h (fun _ => 0#64) (some 0) = .ok out ∧
      call ∈ out.calls ∧ call.seen ≠ payload (h.load (receivedBlock echoRequest)) := by
  obtain ⟨h, reached, saw⟩ : ∃ h, Run.Reach Streams.step (fun _ _ => True) (· = Heap.empty) h ∧ sawReply h = true :=
    Run.Reach.found (received echoRequest) rfl (by decide +kernel)
  simp only [sawReply, Bool.and_eq_true, beq_iff_eq] at saw
  obtain ⟨⟨⟨⟨here, passes⟩, streams⟩, blocks⟩, saw⟩ := saw
  cases run : ipRput firstAnswers twoUppers twoShares h (fun _ => 0#64) (some 0) with
  | error fault => simp [run] at saw
  | ok out =>
    simp only [run, List.any_eq_true, bne_iff_ne] at saw
    obtain ⟨call, member, saw⟩ := saw
    refine ⟨h, _, out, call, arrived_arrives (by decide) reached here, passes, ?_, run, member, saw⟩
    rw [streams, blocks]
    exact twoShares_served

end Inputs

end Kappara.Net
