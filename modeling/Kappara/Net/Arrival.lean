import Kappara.Net.Delivery

/-! Datagrams of any content as IP receives them.

A header passes the tests of ip_rput or is counted and the message freed. What the
tests do not compare are the header length and the total length, and a datagram
that passes them but reaches no stream is freed without being counted. -/

set_option autoImplicit false

namespace Kappara.Net

open Streams

variable {modules : Nat → Module} {shares : Nat → Share} {hdr : Nat → Byte} {h h' : Heap} {body mp : Addr} {mb : Mblk}
  {db : Dblk} {chain : List Addr} {rqs : List Nat} {j rq : Nat} {uppers : Uppers} {drops : Drops} {m : Module}

theorem Module.answers_request {len : Nat} (answers : m.answers len hdr = true) :
    icmpHdrLen ≤ len ∧ hdr 0 = icmpTypeEchoRequest := by
  cases m with
  | tcp | udp localPort => cases answers
  | icmp icmpId =>
    simp only [Module.answers, icmpAccepts, Bool.and_eq_true, decide_eq_true_eq, beq_iff_eq] at answers
    exact ⟨answers.1.1.1, answers.2⟩

theorem Module.quiet_of_reply (m : Module) (len : Nat) (reply : hdr 0 = icmpTypeEchoReply) :
    m.answers len hdr = false := by
  rw [← Bool.not_eq_true]
  intro answers
  have request := (Module.answers_request answers).2
  rw [reply] at request
  cases request

/-- What the streams get to see: the bytes are those that came in until a stream answers. -/
structure Views (modules : Nat → Module) (mb : Mblk) (rqs : List Nat) (h h' : Heap) (calls : List Call) : Prop where
  named : calls.map Call.rq = rqs
  quiet : (∀ rq ∈ rqs, (modules rq).answers mb.len.toNat (h.load mb) = false) →
    (∀ call ∈ calls, call.bytes = h.load mb) ∧ h'.load mb = h.load mb
  loud : (∃ rq ∈ rqs, (modules rq).answers mb.len.toNat (h.load mb) = true) → h'.load mb 0 = icmpTypeEchoReply

theorem Views.cons {h₁ : Heap} {call : Call} {calls : List Call} (views : Views modules mb rqs h₁ h' calls)
    (left : Left (modules rq) mb chain h h₁) (named : call.rq = rq) (bytes : call.bytes = h.load mb)
    (member : body ∈ chain)
    (here : h.mblks.cells body = some mb) : Views modules mb (rq :: rqs) h h' (call :: calls) where
  named := by simp [named, views.named]
  quiet none := by
    have quiet := views.quiet
    rw [Intact.load (left.intact (none rq List.mem_cons_self)) member here] at quiet
    obtain ⟨same, load⟩ := quiet fun rq' member => none rq' (List.mem_cons_of_mem rq member)
    exact ⟨List.forall_mem_cons.mpr ⟨bytes, same⟩, load⟩
  loud := by
    rintro ⟨rq', inside, answers⟩
    cases silent : (modules rq).answers mb.len.toNat (h.load mb) with
    | true =>
      -- The reply is in the buffer, and no later stream takes it for a request.
      have reply : h₁.load mb 0 = icmpTypeEchoReply := left.struck silent body member mb here rfl rfl
      rw [(views.quiet fun rq' _ => (modules rq').quiet_of_reply _ reply).2, reply]
    | false =>
      have loud := views.loud
      rw [Intact.load (left.intact silent) member here] at loud
      rcases List.mem_cons.mp inside with rfl | inside
      · rw [silent] at answers
        cases answers
      · exact loud ⟨rq', inside, answers⟩

section

variable (sound : Sound h) (message : Message h (some body) chain) (here : h.mblks.cells body = some mb)
include sound message here

theorem copyLoop_run (possible : copyLoop modules shares hdr body j rqs h ≠ .error .taken) :
    ∃ h' calls, copyLoop modules shares hdr body j rqs h = .ok (h', calls) ∧ Sound h' ∧ Spared h h' chain ∧
      (∀ call ∈ calls, call.Fits h mb) ∧ (calls = [] → h'.mblks.cells = h.mblks.cells) ∧
      (calls = [] ↔ ∀ i < rqs.length, (shares (j + i)).serves chain.length = false) ∧
      ((∀ i < rqs.length, (shares (j + i)).serves chain.length = true) → Views modules mb rqs h h' calls) := by
  induction rqs generalizing h j with
  | nil =>
    exact ⟨h, [], rfl, sound, .of_dblks (fun _ _ => rfl) rfl, by simp, fun _ => rfl, by simp,
      fun _ => ⟨rfl, by simp, by simp⟩⟩
  | cons rq rqs ih =>
    have onward (i : Nat) : j + 1 + i = j + (i + 1) := by omega
    rcases copyLoop_round sound message here possible with ⟨unserved, h₁, run, sound₁, cells, spared, -⟩ | ⟨served, h₁,
      call, run, left, named, fits, bytes⟩
    · rw [run] at possible ⊢
      obtain ⟨h', calls, run', sound', spared', fits, back, none, -⟩ := ih sound₁ (message.congr spared.cells)
        ((spared.cells body message.mem).trans here) possible
      refine ⟨h', calls, run', sound', spared.trans spared',
        fun call member => (fits call member).before spared message.mem here,
        fun empty => (back empty).trans cells, ?_, fun all => absurd (all 0 (by simp)) (by simp [unserved])⟩
      rw [none]
      constructor
      · intro rest i inside
        cases i with
        | zero => exact unserved
        | succ i => simpa only [onward] using rest i (by simpa using inside)
      · intro all i inside
        rw [onward]
        exact all (i + 1) (by simpa using inside)
    · rw [run] at possible ⊢
      have possible' : copyLoop modules shares hdr body (j + 1) rqs h₁ ≠ .error .taken := by
        intro taken
        simp [taken] at possible
      obtain ⟨h', calls, run', sound', spared', fits', -, -, views⟩ := ih left.sound (message.congr left.spared.cells)
        ((left.spared.cells body message.mem).trans here) possible'
      refine ⟨h', call :: calls, by rw [run'], sound', left.spared.trans spared', ?_, by simp, ?_, fun all => ?_⟩
      · intro call' member
        rcases List.mem_cons.mp member with rfl | member
        · exact fits
        · exact (fits' call' member).before left.spared message.mem here
      · simp only [reduceCtorEq, false_iff, not_forall]
        exact ⟨0, by simp, by simp [served]⟩
      · refine (views fun i inside => ?_).cons left named bytes message.mem here
        rw [onward]
        exact all (i + 1) (by simpa using inside)

theorem lastMatch_run (possible : lastMatch modules shares hdr body j rq h ≠ .error .taken) :
    ((shares j).ind.complete = false ∧ ∃ h', lastMatch modules shares hdr body j rq h = .ok (h', []) ∧ Sound h' ∧
      ∀ a, h'.mblks.cells a = if a ∈ chain then none else h.mblks.cells a) ∨
    ((shares j).ind.complete = true ∧ ∃ h' call, lastMatch modules shares hdr body j rq h = .ok (h', [call]) ∧
      Sound h' ∧ call.rq = rq ∧ call.Fits h mb ∧ call.bytes = h.load mb) := by
  unfold lastMatch at possible ⊢
  have build : buildUnitdataInd h (protoOf hdr) (srcIp hdr) (dstIp hdr) (shares j).ind ≠ .error .taken := by
    intro taken
    simp [taken] at possible
  rcases buildUnitdataInd_built sound build with ⟨refused, h₁, run, sound₁, same⟩ | ⟨granted, h₁, ind, run, built⟩
  · obtain ⟨h', freed, gone⟩ := Message.freemsg sound₁ (message.congr fun a _ => by rw [same.mblks])
    refine .inl ⟨refused, h', ?_, gone.sound, ?_⟩
    · simp only [run, freed]
    · intro a
      rw [gone.cells, same.mblks]
  · obtain ⟨rest, rfl⟩ := message.head_eq
    have alone := built.outside message.live
    obtain ⟨spared, intact⟩ := built.spared sound message.live
    have here₁ := (spared.cells body List.mem_cons_self).trans here
    obtain ⟨h', db, put, found, left⟩ : ∃ h' db, deliver (modules rq) (shares j).serve h₁ rq ind body =
        .ok (h', ⟨rq, mb, db, h₁.load mb⟩) ∧ h₁.dblks.cells mb.datap = some db ∧ Left (modules rq) mb [] h₁ h' :=
      deliver_left here₁ (modules rq) (shares j).serve rq built.sound (message.congr spared.cells) built.live alone
        (by simp) (by simp)
    have load : h₁.load mb = h.load mb := intact.load List.mem_cons_self here
    refine .inr ⟨granted, h', ⟨rq, mb, db, h₁.load mb⟩, ?_, left.sound, rfl, ⟨rfl, rfl, ?_⟩, load⟩
    · simp only [run, put]
    · intro db₀ found₀
      obtain ⟨db', found', -, lim⟩ := spared.dblks body List.mem_cons_self mb db₀ here found₀
      cases found.symm.trans found'
      exact lim

end

def anyServed (shares : Nat → Share) (matches' blocks : Nat) : Bool :=
  0 < matches' && ((List.range (matches' - 1)).any (fun j => (shares j).serves blocks) ||
    (shares (matches' - 1)).ind.complete)

def AllServed (shares : Nat → Share) (matches' blocks : Nat) : Prop :=
  (∀ j, j + 1 < matches' → (shares j).serves blocks = true) ∧ (shares (matches' - 1)).ind.complete = true

theorem ipDemuxPut_run (sound : Sound h) (message : Message h (some body) chain) (here : h.mblks.cells body = some mb)
    (possible : ipDemuxPut modules shares hdr body rqs h ≠ .error .taken) :
    ∃ h' calls, ipDemuxPut modules shares hdr body rqs h = .ok (h', calls) ∧ Sound h' ∧
      (∀ call ∈ calls, call.Fits h mb) ∧
      (calls = [] → ∀ a, h'.mblks.cells a = if a ∈ chain then none else h.mblks.cells a) ∧
      (calls = [] ↔ anyServed shares rqs.length chain.length = false) ∧ (AllServed shares rqs.length chain.length →
        calls.map Call.rq = rqs ∧
        ((∀ rq ∈ rqs.dropLast, (modules rq).answers mb.len.toNat (h.load mb) = false) →
          ∀ call ∈ calls, call.bytes = h.load mb) ∧
        ((∃ rq ∈ rqs.dropLast, (modules rq).answers mb.len.toNat (h.load mb) = true) →
          ∃ call ∈ calls, call.bytes 0 = icmpTypeEchoReply)) := by
  cases rqs using List.reverseRecOn with
  | nil =>
    obtain ⟨h', freed, gone⟩ := message.freemsg sound
    exact ⟨h', [], by simp [ipDemuxPut, freed], gone.sound, by simp, fun _ => gone.cells, by simp [anyServed], by simp⟩
  | append_singleton rqs rq =>
    simp only [ipDemuxPut, List.getLast?_concat, List.dropLast_concat, List.length_append, List.length_singleton,
      Nat.add_sub_cancel] at possible ⊢
    have first : copyLoop modules shares hdr body 0 rqs h ≠ .error .taken := by
      intro taken
      simp [taken] at possible
    obtain ⟨h₁, calls, run, sound₁, spared, fits, back, none, views⟩ := copyLoop_run sound message here first
    simp only [run] at possible ⊢
    have second : lastMatch modules shares hdr body rqs.length rq h₁ ≠ .error .taken := by
      intro taken
      simp [taken] at possible
    have served : anyServed shares (rqs.length + 1) chain.length = false ↔
        calls = [] ∧ (shares rqs.length).ind.complete = false := by
      rw [none]
      simp [anyServed]
    rw [served]
    rcases lastMatch_run sound₁ (message.congr spared.cells) ((spared.cells body message.mem).trans here) second with
      ⟨refused, h', run', sound', cells⟩ | ⟨granted, h', call, run', sound', named, fits', bytes⟩
    · refine ⟨h', calls, by simp [run'], sound', fits, ?_, by simp [refused],
        fun all => absurd all.2 (by simp [refused])⟩
      intro empty a
      rw [cells, back empty]
    · refine ⟨h', calls ++ [call], by simp [run'], sound', ?_, by simp, by simp [granted], fun all => ?_⟩
      · intro call' member
        rcases List.mem_append.mp member with copied | last
        · exact fits call' copied
        · rw [List.mem_singleton.mp last]
          exact fits'.before spared message.mem here
      · have views := views fun i inside => all.1 (0 + i) (by omega)
        refine ⟨by simp [views.named, named], fun none => ?_,
          fun some => ⟨call, by simp, by rw [bytes, views.loud some]⟩⟩
        obtain ⟨same, load⟩ := views.quiet none
        intro call' member
        rcases List.mem_append.mp member with copied | last
        · exact same call' copied
        · rw [List.mem_singleton.mp last, bytes, load]

/-- A message with data in its first block, as a driver hands it to IP. -/
structure Arrives (h : Heap) (mp : Addr) (mb : Mblk) (db : Dblk) (chain : List Addr) : Prop where
  sound : Sound h
  message : Message h (some mp) chain
  here : h.mblks.cells mp = some mb
  found : h.dblks.cells mb.datap = some db
  data : db.type = mData
  ordered : mb.rptr ≤ mb.wptr
  inside : mb.wptr ≤ db.lim

def blocksKept (mb : Mblk) (hdr : Nat → Byte) (chain : List Addr) : Nat :=
  if totalLen hdr < mb.len.toNat then 1 else chain.length

theorem Arrives.len (arrives : Arrives h mp mb db chain) : mb.len.toNat = mb.wptr - mb.rptr := by
  have room := arrives.sound.room mb.datap db arrives.found
  have inside := arrives.inside
  have ordered := arrives.ordered
  rw [kmallocMax] at room
  rw [Mblk.len, BitVec.toNat_sub, BitVec.toNat_ofNat, BitVec.toNat_ofNat]
  omega

/-- The message after the pad is cut off: the datagram is in its first block. -/
structure Trimmed (h : Heap) (mp : Addr) (mb : Mblk) (chain : List Addr) (total : Nat) (h' : Heap) (mb' : Mblk)
    (chain' : List Addr) : Prop where
  sound : Sound h'
  message : Message h' (some mp) chain'
  here : h'.mblks.cells mp = some mb'
  rptr : mb'.rptr = mb.rptr
  wptr : mb'.wptr = mb.rptr + total
  datap : mb'.datap = mb.datap
  dblk : ∀ db, h.dblks.cells mb.datap = some db → ∃ db', h'.dblks.cells mb.datap = some db' ∧ db'.lim = db.lim
  load : h'.load mb = h.load mb
  gone : ∀ a ∈ chain, a ∉ chain' → h'.mblks.cells a = none
  blocks : chain'.length = if total < mb.len.toNat then 1 else chain.length

theorem Arrives.trim {total : Nat} (arrives : Arrives h mp mb db chain) (within : total ≤ mb.len.toNat) :
    ∃ h' mb' chain', trimPad h mp mb mb.len.toNat total = .ok h' ∧ Trimmed h mp mb chain total h' mb' chain' := by
  have len := arrives.len
  have ordered := arrives.ordered
  unfold trimPad
  split
  next short =>
    obtain ⟨rest, rfl⟩ := arrives.message.head_eq
    obtain ⟨-, path⟩ := arrives.message.path
    obtain ⟨outside, once⟩ := List.nodup_cons.mp arrives.message.once
    have cut : Sound { h with mblks := h.mblks.set mp { mb with wptr := mb.rptr + total } } :=
      arrives.sound.edit arrives.here rfl
    have other (a : Addr) (member : a ∈ rest) : a ≠ mp := ne_of_mem_of_not_mem member outside
    have tail : Message h mb.cont rest := by
      refine ⟨?_, once, fun a member => arrives.message.live a (List.mem_cons_of_mem mp member)⟩
      simpa [Heap.cont, arrives.here] using path
    obtain ⟨h₁, freed, gone⟩ := Message.freemsg cut (tail.congr fun a member => by simp [other a member])
    have here₁ : h₁.mblks.cells mp = some { mb with wptr := mb.rptr + total } := by simp [gone.cells, outside]
    have single (a : Addr) (member : a ∈ [mp]) : a ∉ rest := by rwa [List.mem_singleton.mp member]
    obtain ⟨spared, intact⟩ := gone.spared single
    have here' : (h₁.setCont (some mp) none).mblks.cells mp =
        some { mb with wptr := mb.rptr + total, cont := none } := by
      simp [Heap.setCont, here₁]
    refine ⟨h₁.setCont (some mp) none, { mb with wptr := mb.rptr + total, cont := none }, [mp], by rw [freed], ?_⟩
    constructor
    · exact gone.sound.setCont _ _
    · exact ⟨⟨rfl, by rw [Heap.cont, here']; rfl⟩, List.nodup_singleton mp, by simp [here']⟩
    · exact here'
    · rfl
    · rfl
    · rfl
    · intro db' found'
      obtain ⟨db'', found'', -, lim⟩ := spared.dblks mp List.mem_cons_self { mb with wptr := mb.rptr + total } db'
        (by simp) found'
      exact ⟨db'', by simpa using found'', lim⟩
    · funext i
      have same := intact mp List.mem_cons_self { mb with wptr := mb.rptr + total } (by simp) _
        (Nat.le_add_right mb.rptr i)
      simpa [Heap.load, Heap.content] using same
    · intro a member away
      have differs : a ≠ mp := by simpa using away
      rw [setCont_cells_of_ne (fun same => differs (Option.some.inj same).symm), gone.cells, if_pos]
      simpa [differs] using member
    · rw [if_pos short]
      rfl
  next long =>
    refine ⟨h, mb, chain, rfl, arrives.sound, arrives.message, arrives.here, rfl, ?_, rfl,
      fun db found => ⟨db, found, rfl⟩, rfl, fun a member away => absurd member away, by rw [if_neg long]⟩
    omega

theorem headerFault_none {len : Nat} (passed : headerFault len hdr = none) :
    ihlBytes hdr ≤ len ∧ totalLen hdr ≤ len := by
  unfold headerFault at passed
  split at passed
  · cases passed
  · split at passed
    · cases passed
    · split at passed
      · cases passed
      next header =>
        split at passed
        · cases passed
        next total => exact ⟨by omega, by omega⟩

def accepted (len : Nat) (hdr : Nat → Byte) : Bool :=
  headerFault len hdr = none && ipChecksum (front hdr (ihlBytes hdr)) == 0#16

theorem accepted_within {len : Nat} (passed : accepted len hdr = true) : ihlBytes hdr ≤ len ∧ totalLen hdr ≤ len := by
  simp only [accepted, Bool.and_eq_true, decide_eq_true_eq] at passed
  exact headerFault_none passed.1

/-- Every body that is passed up lies inside its data block and has the length the header gives, which is
at most the received length; a message that is not passed up is freed once and counted once. -/
structure Harmless (h : Heap) (drops : Drops) (mb : Mblk) (chain : List Addr) (out : Received) : Prop where
  ordered : ∀ call ∈ out.calls, call.body.rptr ≤ call.body.wptr
  inside : ∀ call ∈ out.calls, call.body.wptr ≤ call.dblk.lim
  exact : ∀ call ∈ out.calls, (call.body.wptr : Int) - call.body.rptr =
    (totalLen (h.load mb) : Int) - ihlBytes (h.load mb)
  bounded : ∀ call ∈ out.calls, call.body.len.toNat ≤ mb.len.toNat
  freed : out.calls = [] → ∀ a ∈ chain, out.heap.mblks.cells a = none ∧
    out.heap.mblks.returned a + h.mblks.handed a = h.mblks.returned a + out.heap.mblks.handed a + 1
  counted : out.calls = [] → ∃ drop, out.drops = drops.count drop

theorem returned_once {a : Addr} (sound : Sound h) (sound' : Sound h') (live : (h.mblks.cells a).isSome)
    (gone : h'.mblks.cells a = none) :
    h'.mblks.returned a + h.mblks.handed a = h.mblks.returned a + h'.mblks.handed a + 1 := by
  have before := sound.mblks a
  have after := sound'.mblks a
  rw [if_pos live] at before
  simp only [gone, Option.isSome_none, Bool.false_eq_true, if_false] at after
  omega

theorem discard_harmless {h₁ : Heap} {mb₁ : Mblk} {chain₁ : List Addr} {total : Nat} (drops : Drops) (drop : Drop)
    (arrives : Arrives h mp mb db chain) (trimmed : Trimmed h mp mb chain total h₁ mb₁ chain₁) :
    ∃ out, discard h₁ (drops.count drop) mp = .ok out ∧ out.calls = [] ∧ Harmless h drops mb chain out := by
  obtain ⟨h', freed, gone⟩ := trimmed.message.freemsg trimmed.sound
  refine ⟨⟨h', drops.count drop, []⟩, by simp [discard, freed], rfl, by simp, by simp, by simp, by simp, ?_,
    fun _ => ⟨drop, rfl⟩⟩
  intro _ a member
  have none : h'.mblks.cells a = none := by
    rw [gone.cells]
    split
    · rfl
    next away => exact trimmed.gone a member away
  exact ⟨none, returned_once arrives.sound gone.sound (arrives.message.live a member) none⟩

theorem Arrives.untrimmed (arrives : Arrives h mp mb db chain) : Trimmed h mp mb chain mb.len.toNat h mb chain where
  sound := arrives.sound
  message := arrives.message
  here := arrives.here
  rptr := rfl
  wptr := by
    have ordered := arrives.ordered
    rw [arrives.len]
    omega
  datap := rfl
  dblk db found := ⟨db, found, rfl⟩
  load := rfl
  gone a member away := absurd member away
  blocks := by simp

theorem count_ne (drops : Drops) (drop : Drop) : drops.count drop ≠ drops := by
  intro same
  have here := congrFun same drop
  simp [Drops.count] at here

theorem Arrives.refused (arrives : Arrives h mp mb db chain) (refused : accepted mb.len.toNat (h.load mb) = false) :
    ∃ out, ipRput modules uppers shares h drops (some mp) = .ok out ∧ out.calls = [] ∧
      Harmless h drops mb chain out := by
  simp only [ipRput, arrives.here, arrives.found, arrives.data, ne_eq, not_true_eq_false, if_false]
  cases fault : headerFault mb.len.toNat (h.load mb) with
  | some drop => exact discard_harmless drops drop arrives arrives.untrimmed
  | none =>
    obtain ⟨h₁, mb₁, chain₁, trim, trimmed⟩ := arrives.trim (headerFault_none fault).2
    have sum : ipChecksum (front (h.load mb) (ihlBytes (h.load mb))) ≠ 0#16 := by simpa [accepted, fault] using refused
    simp only [trim, if_pos sum]
    exact discard_harmless drops .ipBadcsum arrives trimmed

/-- What ip_rput returns after ip_demux. -/
def handUp (drops : Drops) (result : Except Fault (Heap × List Call)) : Except Fault Received :=
  result.map fun done => ⟨done.1, drops, done.2⟩

theorem Arrives.accept (arrives : Arrives h mp mb db chain) (passed : accepted mb.len.toNat (h.load mb) = true) :
    ∃ h₁ mb₁ chain₁, Trimmed h mp mb chain (totalLen (h.load mb)) h₁ mb₁ chain₁ ∧
      ipRput modules uppers shares h drops (some mp) = handUp drops (ipDemuxPut modules shares (h.load mb) mp
        (ipDemux uppers (protoOf (h.load mb))) (h₁.advance mp (ihlBytes (h.load mb)))) := by
  simp only [accepted, Bool.and_eq_true, decide_eq_true_eq, beq_iff_eq] at passed
  obtain ⟨fault, sum⟩ := passed
  obtain ⟨h₁, mb₁, chain₁, trim, trimmed⟩ := arrives.trim (headerFault_none fault).2
  refine ⟨h₁, mb₁, chain₁, trimmed, ?_⟩
  simp only [ipRput, arrives.here, arrives.found, arrives.data, fault, trim, sum, ne_eq, not_true_eq_false, if_false]
  generalize ipDemuxPut modules shares (h.load mb) mp (ipDemux uppers (protoOf (h.load mb))) _ = result
  cases result <;> rfl

theorem handUp_taken {result : Except Fault (Heap × List Call)} (possible : handUp drops result ≠ .error .taken) :
    result ≠ .error .taken := by
  rintro rfl
  exact possible rfl

/-- A datagram of any content is harmless exactly when its header is refused, or its header length is
within its total length and some stream gets it. -/
theorem datagram_harmless_iff (arrives : Arrives h mp mb db chain)
    (possible : ipRput modules uppers shares h drops (some mp) ≠ .error .taken) :
    ∃ out, ipRput modules uppers shares h drops (some mp) = .ok out ∧
      (Harmless h drops mb chain out ↔ (accepted mb.len.toNat (h.load mb) = true →
        ihlBytes (h.load mb) ≤ totalLen (h.load mb) ∧
        anyServed shares (ipDemux uppers (protoOf (h.load mb))).length (blocksKept mb (h.load mb) chain) = true)) := by
  cases acceptance : accepted mb.len.toNat (h.load mb) with
  | false =>
    obtain ⟨out, run, -, harmless⟩ := arrives.refused acceptance
    exact ⟨out, run, by simp [harmless]⟩
  | true =>
    obtain ⟨h₁, mb₁, chain₁, trimmed, handed⟩ :=
      @Arrives.accept modules shares _ _ _ _ _ uppers drops arrives acceptance
    obtain ⟨header, total⟩ := accepted_within acceptance
    rw [handed] at possible ⊢
    obtain ⟨h', calls, run, sound', fits, freed, none, -⟩ :=
      ipDemuxPut_run trimmed.sound.advance trimmed.message.advance (advance_cells trimmed.here) (handUp_taken possible)
    refine ⟨⟨h', drops, calls⟩, by rw [run]; rfl, ?_⟩
    rw [trimmed.blocks] at none
    simp only [true_imp_iff]
    constructor
    · intro harmless
      have some : calls ≠ [] := by
        intro empty
        obtain ⟨drop, counted⟩ := harmless.counted empty
        exact count_ne drops drop counted.symm
      obtain ⟨call, member⟩ := List.exists_mem_of_ne_nil calls some
      constructor
      · have ordered := harmless.ordered call member
        have exact := harmless.exact call member
        omega
      · rw [← Bool.not_eq_false]
        exact fun unserved => some (none.mpr unserved)
    · rintro ⟨within, served⟩
      have some : calls ≠ [] := fun empty => by simp [none.mp empty, blocksKept] at served
      have len := arrives.len
      have ordered := arrives.ordered
      have inside := arrives.inside
      have rptr (call : Call) (member : call ∈ calls) : call.body.rptr = mb.rptr + ihlBytes (h.load mb) := by
        rw [(fits call member).rptr, trimmed.rptr]
      have wptr (call : Call) (member : call ∈ calls) : call.body.wptr = mb.rptr + totalLen (h.load mb) := by
        rw [(fits call member).wptr, trimmed.wptr]
      constructor
      · intro call member
        rw [rptr call member, wptr call member]
        omega
      · intro call member
        obtain ⟨db', found', lim⟩ := trimmed.dblk db arrives.found
        have limit := (fits call member).lim db' (by simpa [trimmed.datap] using found')
        rw [wptr call member, limit, lim]
        omega
      · intro call member
        rw [rptr call member, wptr call member]
        omega
      · intro call member
        rw [Mblk.len, BitVec.toNat_sub, BitVec.toNat_ofNat, BitVec.toNat_ofNat, rptr call member, wptr call member]
        omega
      · exact fun empty => absurd empty some
      · exact fun empty => absurd empty some

section Inputs

def received (bytes : List Byte) : List Op :=
  [.allocb 64 ⟨some 0, some 0, some 0, fun i => bytes.getD i 0#8⟩, .edit 0 none 0 bytes.length]

def receivedBlock (bytes : List Byte) : Mblk := ⟨none, 0, bytes.length, 0⟩

def arrived (bytes : List Byte) (h : Heap) : Bool :=
  h.mblks.cells 0 == some (receivedBlock bytes) && h.dblks.cells 0 == some ⟨some 0, 64, 1#32, mData⟩

theorem arrived_arrives {bytes : List Byte} (short : bytes.length ≤ 64)
    (reached : Run.Reach Streams.step (fun _ _ => True) (· = Heap.empty) h)
    (here : arrived bytes h = true) : Arrives h 0 (receivedBlock bytes) ⟨some 0, 64, 1#32, mData⟩ [0] := by
  simp only [arrived, Bool.and_eq_true, beq_iff_eq] at here
  constructor
  · exact Sound.reach reached
  · exact ⟨⟨rfl, by rw [Heap.cont, here.1]; rfl⟩, List.nodup_singleton 0, by simp [here.1]⟩
  · exact here.1
  · exact here.2
  · rfl
  · exact Nat.zero_le _
  · exact short

def oneUpper : Uppers := fun slot => if slot = 0 then some ⟨ipprotoTcp, 0#32, 0⟩ else none

def oneShare : Nat → Share := fun _ => ⟨[], ⟨some 1, some 1, some 1, fun _ => 0#8⟩, ⟨true, fun _ => 0#8⟩⟩

def plainDatagram : List Byte := [0x45, 0, 0, 24, 0, 0, 0, 0, 64, 6, 0x66, 0xde, 10, 0, 0, 1, 10, 0, 0, 2, 1, 2, 3, 4]

def longHeader : List Byte := [0x4f, 0, 0, 20, 0, 0, 0, 0, 64, 6, 0x5c, 0xe2, 10, 0, 0, 1, 10, 0, 0, 2] ++
    List.replicate 40 0#8

def servedPlain (h : Heap) : Bool :=
  let hdr := h.load (receivedBlock plainDatagram)
  arrived plainDatagram h && ihlBytes hdr ≤ totalLen hdr &&
    anyServed oneShare (ipDemux oneUpper (protoOf hdr)).length (blocksKept (receivedBlock plainDatagram) hdr [0]) &&
    (ipRput (fun _ => .tcp) oneUpper oneShare h (fun _ => 0#64) (some 0)).isOk

theorem datagram_harmless_iff_plain :
    ∃ h out, arrived plainDatagram h = true ∧
      ipRput (fun _ => .tcp) oneUpper oneShare h (fun _ => 0#64) (some 0) = .ok out ∧
      Harmless h (fun _ => 0#64) (receivedBlock plainDatagram) [0] out := by
  obtain ⟨h, reached, served⟩ : ∃ h, Run.Reach Streams.step (fun _ _ => True) (· = Heap.empty) h ∧
      servedPlain h = true :=
    Run.Reach.found (received plainDatagram) rfl (by decide +kernel)
  simp only [servedPlain, Bool.and_eq_true, decide_eq_true_eq] at served
  obtain ⟨⟨⟨here, within⟩, served⟩, ok⟩ := served
  have possible : ipRput (fun _ => .tcp) oneUpper oneShare h (fun _ => 0#64) (some 0) ≠ .error .taken := by
    intro taken
    rw [taken] at ok
    cases ok
  obtain ⟨out, run, harmless⟩ := datagram_harmless_iff (arrived_arrives (by decide) reached here) possible
  exact ⟨h, out, here, run, harmless.mpr fun _ => ⟨within, served⟩⟩

def passedBackwards (h : Heap) : Bool :=
  arrived longHeader h && match ipRput (fun _ => .tcp) oneUpper oneShare h (fun _ => 0#64) (some 0) with
    | .error _ => false
    | .ok out => out.calls.any fun call => call.body.wptr < call.body.rptr

/-- A stream is given a body whose read pointer is behind its write pointer. -/
theorem long_header_passed_backwards : ∃ h db out, Arrives h 0 (receivedBlock longHeader) db [0] ∧
      ipRput (fun _ => .tcp) oneUpper oneShare h (fun _ => 0#64) (some 0) = .ok out ∧
      ¬ Harmless h (fun _ => 0#64) (receivedBlock longHeader) [0] out := by
  obtain ⟨h, reached, backwards⟩ : ∃ h, Run.Reach Streams.step (fun _ _ => True) (· = Heap.empty) h ∧
      passedBackwards h = true :=
    Run.Reach.found (received longHeader) rfl (by decide +kernel)
  simp only [passedBackwards, Bool.and_eq_true] at backwards
  obtain ⟨here, backwards⟩ := backwards
  cases run : ipRput (fun _ => .tcp) oneUpper oneShare h (fun _ => 0#64) (some 0) with
  | error fault => simp [run] at backwards
  | ok out =>
    simp only [run, List.any_eq_true, decide_eq_true_eq] at backwards
    obtain ⟨call, member, backwards⟩ := backwards
    refine ⟨h, _, out, arrived_arrives (by decide) reached here, run, ?_⟩
    intro harmless
    have ordered := harmless.ordered call member
    omega

end Inputs

end Kappara.Net
