import Kappara.Streams.Messages

/-! Serving the streams of a datagram one after another.

A put procedure works on its own message: the body that is still to be served
keeps its blocks and their buffers. Its bytes change only where an ICMP stream
answers an echo request, which it does in the buffer all copies share. -/

set_option autoImplicit false

namespace Kappara.Streams

open Refcount

variable {h h' : Heap} {a b body ind : Addr} {mb : Mblk} {db : Dblk} {start result : Option Addr}
  {chain other rest : List Addr} {size : Nat} {grant : Grant}

def Grant.complete (grant : Grant) : Bool := grant.dblk.isSome && grant.buf.isSome && grant.mblk.isSome

theorem allocb_error {fault : Fault} (run : allocb h size grant = .error fault) : fault = .taken := by
  unfold allocb at run
  split at run
  · split at run
    · cases run
    · dsimp only at run
      generalize (if 0 < size then grant.buf else none) = buf at run
      split at run
      · cases run
      · split at run
        · cases run
        · cases run
  · cases run
    rfl

theorem allocb_complete (run : allocb h size grant = .ok (h', result)) (some : 0 < size) :
    result.isSome = grant.complete := by
  unfold allocb at run
  simp only [some, if_true] at run
  split at run
  · cases dblk : grant.dblk with
    | none =>
      simp only [dblk] at run
      cases run
      simp [Grant.complete, dblk]
    | some d =>
      simp only [dblk] at run
      cases buf : grant.buf with
      | none =>
        simp only [buf] at run
        cases run
        simp [Grant.complete, buf]
      | some b =>
        simp only [buf] at run
        cases mblk : grant.mblk with
        | none =>
          simp only [mblk] at run
          cases run
          simp [Grant.complete, mblk]
        | some m =>
          simp only [mblk] at run
          cases run
          simp [Grant.complete, dblk, buf, mblk]
  · cases run

structure Built (h h' : Heap) (ind : Addr) : Prop where
  sound : Sound h'
  grown : Grown h h'
  fresh : h.mblks.cells ind = none
  live : (h'.mblks.cells ind).isSome
  others : ∀ a, a ≠ ind → h'.mblks.cells a = h.mblks.cells a
  last : h'.cont ind = none

variable {bytes : Nat → Byte} {d : Addr} {n : Nat} {cont : Option Addr}

theorem Sound.store (sound : Sound h) : Sound (h.store d bytes) := by
  unfold Heap.store
  split
  · exact sound
  · split
    · exact sound
    next live => exact sound.set_buf live

theorem Sound.advance (sound : Sound h) : Sound (h.advance a n) := by
  unfold Heap.advance
  split
  · exact sound
  next live => exact sound.edit live rfl

@[simp] theorem store_mblks : (h.store d bytes).mblks = h.mblks := by
  unfold Heap.store
  repeat' split
  all_goals rfl

@[simp] theorem store_dblks : (h.store d bytes).dblks = h.dblks := by
  unfold Heap.store
  repeat' split
  all_goals rfl

@[simp] theorem advance_dblks : (h.advance a n).dblks = h.dblks := by
  unfold Heap.advance
  split <;> rfl

@[simp] theorem advance_bufs : (h.advance a n).bufs = h.bufs := by
  unfold Heap.advance
  split <;> rfl

@[simp] theorem setCont_dblks {mp : Option Addr} : (h.setCont mp cont).dblks = h.dblks := by
  unfold Heap.setCont
  repeat' split
  all_goals rfl

@[simp] theorem setCont_bufs {mp : Option Addr} : (h.setCont mp cont).bufs = h.bufs := by
  unfold Heap.setCont
  repeat' split
  all_goals rfl

theorem advance_cells_of_ne (other : a ≠ b) : (h.advance b n).mblks.cells a = h.mblks.cells a := by
  unfold Heap.advance
  split
  · rfl
  · exact Function.update_of_ne other _ _

theorem advance_cells (here : h.mblks.cells a = some mb) :
    (h.advance a n).mblks.cells a = some { mb with rptr := mb.rptr + n } := by
  simp [Heap.advance, here]

theorem advance_cont : (h.advance a n).cont = h.cont := by
  funext b
  by_cases same : b = a
  · subst same
    cases here : h.mblks.cells b with
    | none | some mb => simp [Heap.advance, Heap.cont, here]
  · rw [Heap.cont, Heap.cont, advance_cells_of_ne same]

/-- A write to the links and pointers of blocks outside a chain. -/
theorem Spared.of_dblks (cells : ∀ a ∈ chain, h'.mblks.cells a = h.mblks.cells a) (dblks : h'.dblks = h.dblks) :
    Spared h h' chain where
  cells := cells
  dblks _ _ _ db _ found := ⟨db, by rw [dblks, found], rfl, rfl⟩

theorem Intact.of_bufs (dblks : h'.dblks = h.dblks) (bufs : h'.bufs = h.bufs) : Intact h h' chain := by
  intro a _ mb _ i _
  rw [Heap.content, Heap.content, dblks, bufs]

theorem Message.advance (message : Message h start chain) : Message (h.advance a n) start chain where
  path := by
    rw [advance_cont]
    exact message.path
  once := message.once
  live b member := by
    by_cases same : b = a
    · subst same
      obtain ⟨mb, here⟩ := Option.isSome_iff_exists.mp (message.live b member)
      simp [advance_cells here]
    · rw [advance_cells_of_ne same]
      exact message.live b member

theorem Message.head_eq (message : Message h (some body) chain) : ∃ rest, chain = body :: rest := by
  cases chain with
  | nil => cases message.path
  | cons first rest => exact ⟨rest, by rw [Option.some.inj message.path.1]⟩

theorem indBytes_length (proto : Byte) (src dst : Net.Ip) : (Net.indBytes proto src dst).length = 12 := by
  simp [Net.indBytes, Tcp.ipBytes]

theorem fill_eq {type : Byte} (live : h.mblks.cells a = some mb) (found : h.dblks.cells mb.datap = some db) :
    fill h a type bytes = .ok ⟨h.mblks, h.dblks.set mb.datap { db with type := type }, match db.base with
      | none => h.bufs
      | some b => h.bufs.set b bytes⟩ := by
  cases base : db.base with
  | none | some b => simp only [fill, live, found, base]

theorem edit_eq {rptr wptr : Nat} (live : h.mblks.cells a = some mb) :
    edit h a cont rptr wptr = .ok { h with mblks := h.mblks.set a ⟨cont, rptr, wptr, mb.datap⟩ } := by
  simp [edit, live]

theorem Allocb.built {type : Byte} {wptr : Nat} (sound : Sound h) (made : Allocb h size h' (some ind)) :
    ∃ h₁ h₂, fill h' ind type bytes = .ok h₁ ∧ edit h₁ ind none 0 wptr = .ok h₂ ∧ Built h h₂ ind := by
  have sound' := sound.allocb made
  cases made with
  | @granted d _ buf content dblkFree mblkFree bufFree room =>
    have other (b : Addr) (at_b : (h.mblks.cells b).isSome) : b ≠ ind := by
      rintro rfl
      simp [mblkFree] at at_b
    have filled : ∃ h₁, fill ⟨h.mblks.take ind ⟨none, 0, 0, d⟩, h.dblks.take d ⟨buf, size, 1#32, mData⟩,
        (h.takeBuf buf content).bufs⟩ ind type bytes = .ok h₁ ∧ h₁.mblks = h.mblks.take ind ⟨none, 0, 0, d⟩ ∧
        (∀ e, e ≠ d → h₁.dblks.cells e = h.dblks.cells e) ∧ ∀ c, h.bufs.cells c ≠ none →
          h₁.bufs.cells c = h.bufs.cells c := by
      refine ⟨_, fill_eq (Function.update_self ..) (Function.update_self ..), rfl, ?_, ?_⟩
      · intro e differs
        simp [differs]
      · intro c live
        cases buf with
        | none => rfl
        | some b =>
          have differs : c ≠ b := by
            rintro rfl
            exact live (bufFree c rfl)
          simp [Heap.takeBuf, differs]
    obtain ⟨h₁, run, mblks, dblks, bufs⟩ := filled
    have here : h₁.mblks.cells ind = some ⟨none, 0, 0, d⟩ := by simp [mblks]
    refine ⟨h₁, _, run, edit_eq here, ?_⟩
    constructor
    · exact (sound'.fill run).edit here rfl
    · constructor
      · intro a mb live
        have differs := other a (by simp [live])
        simp [mblks, differs, live]
      · intro e db found
        have differs : e ≠ d := by
          rintro rfl
          rw [dblkFree] at found
          cases found
        simpa [dblks e differs] using found
      · intro c bytes live
        rw [bufs c (by simp [live]), live]
    · exact mblkFree
    · simp
    · intro a differs
      simp [mblks, differs]
    · simp [Heap.cont]

theorem buildUnitdataInd_built {proto : Byte} {src dst : Net.Ip} (sound : Sound h)
    (possible : Net.buildUnitdataInd h proto src dst grant ≠ .error .taken) :
    (grant.complete = false ∧ ∃ h', Net.buildUnitdataInd h proto src dst grant = .ok (h', none) ∧ Sound h' ∧
    Same h h') ∨
    (grant.complete = true ∧ ∃ h' ind, Net.buildUnitdataInd h proto src dst grant = .ok (h', some ind) ∧
    Built h h' ind) := by
  unfold Net.buildUnitdataInd at possible ⊢
  dsimp only at possible ⊢
  cases run : allocb h (Net.indBytes proto src dst).length grant with
  | error fault =>
    rw [run, allocb_error run] at possible
    exact absurd rfl possible
  | ok made =>
    obtain ⟨h', result⟩ := made
    have complete := allocb_complete run (by rw [indBytes_length]; omega)
    have effect := allocb_cases run
    cases result with
    | none =>
      have sound' := sound.allocb effect
      cases effect with
      | refused same => exact .inl ⟨by simpa using complete.symm, h', rfl, sound', same⟩
    | some ind =>
      obtain ⟨h₁, h₂, filled, edited, built⟩ := effect.built sound
      refine .inr ⟨by simpa using complete.symm, h₂, ind, ?_, built⟩
      dsimp only
      rw [filled]
      dsimp only
      rw [edited]

theorem Message.mem (message : Message h (some body) chain) : body ∈ chain := by
  obtain ⟨rest, rfl⟩ := message.head_eq
  exact List.mem_cons_self

theorem Built.spared (sound : Sound h) (built : Built h h' ind) (live : ∀ a ∈ chain, (h.mblks.cells a).isSome) :
    Spared h h' chain ∧ Intact h h' chain := built.grown.spared sound live

theorem Built.message (built : Built h h' ind) : Message h' (some ind) [ind] where
  path := ⟨rfl, built.last⟩
  once := List.nodup_singleton ind
  live a member := by
    rw [List.mem_singleton.mp member]
    exact built.live

theorem Built.outside (built : Built h h' ind) (live : ∀ a ∈ chain, (h.mblks.cells a).isSome) : ind ∉ chain := by
  intro member
  simpa [built.fresh] using live ind member

end Kappara.Streams

namespace Kappara.Net

open Streams

variable {m : Module} {serve : Serve} {h h' : Heap} {body ind : Addr} {mb : Mblk} {chain rest : List Addr} {rq : Nat}

def Module.answers (m : Module) (len : Nat) (hdr : Nat → Byte) : Bool :=
  match m with
  | .icmp icmpId => icmpAccepts icmpId len hdr && hdr 0 == icmpTypeEchoRequest
  | _ => false

structure Left (m : Module) (mb : Mblk) (chain : List Addr) (h h' : Heap) : Prop where
  sound : Sound h'
  spared : Spared h h' chain
  intact : m.answers mb.len.toNat (h.load mb) = false → Intact h h' chain
  struck : m.answers mb.len.toNat (h.load mb) = true → ∀ a ∈ chain, ∀ ma, h.mblks.cells a = some ma →
    ma.datap = mb.datap → ma.rptr = mb.rptr → h'.content ma.datap ma.rptr = icmpTypeEchoReply

theorem Left.quiet (quiet : m.answers mb.len.toNat (h.load mb) = false) (sound : Sound h')
    (left : Spared h h' chain ∧ Intact h h' chain) : Left m mb chain h h' where
  sound := sound
  spared := left.1
  intact _ := left.2
  struck answers := by simp [quiet] at answers

/-- A module that is given a block with the window of mb, after something that spares the chain. -/
theorem Left.after {h₁ : Heap} {mb' : Mblk} (left : Left m mb' chain h₁ h')
    (first : Spared h h₁ chain ∧ Intact h h₁ chain)
    (rptr : mb'.rptr = mb.rptr) (wptr : mb'.wptr = mb.wptr) (datap : mb'.datap = mb.datap)
    (load : h₁.load mb' = h.load mb) : Left m mb chain h h' := by
  have len : mb'.len = mb.len := by rw [Mblk.len, Mblk.len, rptr, wptr]
  constructor
  · exact left.sound
  · exact first.1.trans left.spared
  · intro quiet
    exact first.2.trans first.1 (left.intact (by rw [len, load, quiet]))
  · intro answers a member ma here datap' rptr'
    exact left.struck (by rw [len, load, answers]) a member ma ((first.1.cells a member).trans here)
      (datap'.trans datap.symm) (rptr'.trans rptr.symm)

theorem Left.before {h₁ : Heap} (left : Left m mb chain h h₁) (sound : Sound h')
    (second : Spared h₁ h' chain ∧ Intact h₁ h' chain) : Left m mb chain h h' where
  sound := sound
  spared := left.spared.trans second.1
  intact quiet := (left.intact quiet).trans left.spared second.2
  struck answers a member ma here datap rptr := by
    rw [second.2 a member ma ((left.spared.cells a member).trans here) ma.rptr (Nat.le_refl _)]
    exact left.struck answers a member ma here datap rptr

section

variable (here : h.mblks.cells body = some mb)
include here

theorem Left.answered {icmpId : BitVec 16} (chain : List Addr) (below : Nat → Byte) (sound : Sound h)
    (answers : (Module.icmp icmpId).answers mb.len.toNat (h.load mb) = true) : Left (.icmp icmpId) mb chain h
      (h.store mb.datap fun i => if i < mb.rptr then below i else echoReply mb.len.toNat (h.load mb)
        (i - mb.rptr)) where
  sound := sound.store
  spared := .of_dblks (by simp) store_dblks
  intact quiet := by simp [answers] at quiet
  struck _ a _ ma _ datap rptr := by
    obtain ⟨db, found, -⟩ := sound.dblk here
    cases owns : db.base with
    | none =>
      -- Without a buffer there is no request to answer.
      have zero : h.load mb 0 = 0#8 := by simp [Heap.load, Heap.content, found, owns]
      simp [Module.answers, zero, icmpTypeEchoRequest] at answers
    | some b =>
      obtain ⟨old, live⟩ := sound.buf found owns
      simp [Heap.content, Heap.store, found, owns, live, datap, rptr, echoReply]

theorem Module.input_left (m : Module) (serve : Serve) (sound : Sound h)
    (message : Message h (some body) (body :: rest)) (apart : ∀ a ∈ chain, a ∉ body :: rest) :
    ∃ h', m.input serve h body = .ok h' ∧ Left m mb chain h h' := by
  have freed (quiet : m.answers mb.len.toNat (h.load mb) = false) :
      ∃ h', freemsg h (some body) = .ok h' ∧ Left m mb chain h h' := by
    obtain ⟨h', run, gone⟩ := message.freemsg sound
    exact ⟨h', run, .quiet quiet gone.sound (gone.spared apart)⟩
  unfold Module.input
  simp only [here]
  cases m with
  | tcp => exact freed rfl
  | udp localPort =>
    dsimp only
    split
    · have outside (a : Addr) (member : a ∈ chain) : a ≠ body := by
        rintro rfl
        exact apart a member List.mem_cons_self
      have moved : Left (.udp localPort) mb chain h (h.advance body udpHdrLen) :=
        .quiet rfl sound.advance ⟨.of_dblks (fun a member => advance_cells_of_ne (outside a member)) advance_dblks,
          .of_bufs advance_dblks advance_bufs⟩
      split
      · exact ⟨_, rfl, moved⟩
      · obtain ⟨h', run, gone⟩ := message.advance.freemsg sound.advance
        exact ⟨h', run, moved.before gone.sound (gone.spared apart)⟩
    · exact freed rfl
  | icmp icmpId =>
    dsimp only
    split
    next accepted =>
      have answers : (Module.icmp icmpId).answers mb.len.toNat (h.load mb) = true := by simp [Module.answers, accepted]
      have stored := Left.answered here chain serve.below sound answers
      split
      · exact ⟨_, rfl, stored⟩
      · obtain ⟨h', run, gone⟩ := Message.freemsg stored.sound (message.congr (by simp))
        exact ⟨h', run, stored.before gone.sound (gone.spared apart)⟩
    next refused => exact freed (by simpa [Module.answers] using refused)

theorem deliver_left (m : Module) (serve : Serve) (rq : Nat) (sound : Sound h)
    (message : Message h (some body) (body :: rest)) (live : (h.mblks.cells ind).isSome) (alone : ind ∉ body :: rest)
    (apart : ∀ a ∈ chain, a ∉ body :: rest) (outside : ind ∉ chain) :
    ∃ h' db, deliver m serve h rq ind body = .ok (h', ⟨rq, mb, db, h.load mb⟩) ∧ h.dblks.cells mb.datap = some db ∧
      Left m mb chain h h' := by
  have cells (a : Addr) (differs : a ≠ ind) (h : Heap) (cont : Option Addr) :
      (h.setCont (some ind) cont).mblks.cells a = h.mblks.cells a :=
    setCont_cells_of_ne fun same => differs (Option.some.inj same).symm
  have elsewhere (a : Addr) (member : a ∈ body :: rest) : a ≠ ind := ne_of_mem_of_not_mem member alone
  obtain ⟨mi, indHere⟩ := Option.isSome_iff_exists.mp live
  obtain ⟨db, found, -⟩ := sound.dblk here
  have linked : (h.setCont (some ind) (some body)).mblks.cells ind = some { mi with cont := some body } := by
    simp [Heap.setCont, indHere]
  have unlinked : ((h.setCont (some ind) (some body)).setCont (some ind) none).mblks.cells ind =
      some { mi with cont := none } := by
    rw [Heap.setCont, linked]
    simp
  have sound₁ : Sound ((h.setCont (some ind) (some body)).setCont (some ind) none) := (sound.setCont _ _).setCont _ _
  -- The indication is freed first, which leaves the body behind it as it is.
  obtain ⟨dbi, foundInd, -⟩ := sound₁.dblk unlinked
  obtain ⟨h₂, freed, effect⟩ := freeb_eq unlinked foundInd
  have sound₂ := sound₁.freeb unlinked effect
  have thinned : Thinned h h₂ := (setCont_thinned.trans setCont_thinned).trans effect.thinned
  have kept (a : Addr) (differs : a ≠ ind) : h₂.mblks.cells a = h.mblks.cells a := by
    rw [effect.mblks, Pool.drop_cells, Function.update_of_ne differs, cells a differs, cells a differs]
  obtain ⟨-, same⟩ := thinned.spared sound₂ fun a member => kept a (elsewhere a member)
  have first := thinned.spared sound₂ fun a member => kept a (ne_of_mem_of_not_mem member outside)
  have load : h₂.load mb = h.load mb := same.load List.mem_cons_self here
  have here₂ : h₂.mblks.cells body = some mb := (kept body (elsewhere body List.mem_cons_self)).trans here
  obtain ⟨h', run, left⟩ := m.input_left here₂ serve sound₂
    (message.congr fun a member => kept a (elsewhere a member)) apart
  refine ⟨h', db, ?_, found, left.after first rfl rfl rfl load⟩
  have put : m.putp serve (h.setCont (some ind) (some body)) ind = .ok h' := by
    simp only [Module.putp, Heap.cont, linked]
    rw [freed]
    exact run
  simp only [deliver, cells body (elsewhere body List.mem_cons_self), here, setCont_dblks, found, put]
  have unmoved : (h.setCont (some ind) (some body)).load mb = h.load mb := by
    funext i
    rw [Heap.load, Heap.load, Heap.content, Heap.content, setCont_dblks, setCont_bufs]
  rw [unmoved]

end

structure Call.Fits (call : Call) (h : Heap) (mb : Mblk) : Prop where
  rptr : call.body.rptr = mb.rptr
  wptr : call.body.wptr = mb.wptr
  lim : ∀ db, h.dblks.cells mb.datap = some db → call.dblk.lim = db.lim

theorem Call.Fits.len {call : Call} (fits : call.Fits h mb) : call.body.len = mb.len := by
  rw [Mblk.len, Mblk.len, fits.rptr, fits.wptr]

theorem Call.Fits.before {call : Call} {h₁ : Heap} (fits : call.Fits h₁ mb) (spared : Spared h h₁ chain)
    (member : body ∈ chain) (here : h.mblks.cells body = some mb) : call.Fits h mb where
  rptr := fits.rptr
  wptr := fits.wptr
  lim db found := by
    obtain ⟨db', found', -, lim⟩ := spared.dblks body member mb db here found
    rw [fits.lim db' found', lim]

def Share.serves (share : Share) (blocks : Nat) : Bool := blocks ≤ share.copy.length && share.ind.complete

section Rounds

variable {modules : Nat → Module} {shares : Nat → Share} {hdr : Nat → Byte} {j : Nat} {rqs : List Nat} {h₁ h₂ : Heap}
  {copies : List Addr} {copy : Addr}

theorem together (first : Spared h h₁ chain ∧ Intact h h₁ chain) (second : Spared h₁ h₂ chain ∧ Intact h₁ h₂ chain) :
    Spared h h₂ chain ∧ Intact h h₂ chain := ⟨first.1.trans second.1, first.2.trans first.1 second.2⟩

theorem freeCopy {start : Option Addr} (sound : Sound h₁) (spared : Spared h h₁ chain ∧ Intact h h₁ chain)
    (message : Message h₁ start copies) (apart : ∀ a ∈ chain, a ∉ copies) (fresh : ∀ a ∈ copies, h.mblks.cells a = none)
    (others : ∀ a, a ∉ copies → h₁.mblks.cells a = h.mblks.cells a) :
    ∃ h₂, freemsg h₁ start = .ok h₂ ∧ Sound h₂ ∧ h₂.mblks.cells = h.mblks.cells ∧ Spared h h₂ chain ∧
      Intact h h₂ chain := by
  obtain ⟨h₂, run, gone⟩ := message.freemsg sound
  refine ⟨h₂, run, gone.sound, ?_, together spared (gone.spared apart)⟩
  funext a
  rw [gone.cells]
  split
  next copied => exact (fresh a copied).symm
  next outside => exact others a outside

theorem freemsg_none : freemsg h none = .ok h := rfl

/-- One match that gets a copy: the body is spared, and the stream is called where its share allows it. -/
theorem copyLoop_round (sound : Sound h) (message : Message h (some body) chain) (here : h.mblks.cells body = some mb)
    (possible : copyLoop modules shares hdr body j (rq :: rqs) h ≠ .error .taken) :
    ((shares j).serves chain.length = false ∧ ∃ h₁, copyLoop modules shares hdr body j (rq :: rqs) h =
      copyLoop modules shares hdr body (j + 1) rqs h₁ ∧ Sound h₁ ∧ h₁.mblks.cells = h.mblks.cells ∧ Spared h h₁ chain ∧
      Intact h h₁ chain) ∨
    ((shares j).serves chain.length = true ∧ ∃ h₁ call, copyLoop modules shares hdr body j (rq :: rqs) h =
      (match copyLoop modules shares hdr body (j + 1) rqs h₁ with
        | .error fault => .error fault
        | .ok (h, calls) => .ok (h, call :: calls)) ∧ Left (modules rq) mb chain h h₁ ∧ call.rq = rq ∧
      call.Fits h mb ∧ call.bytes = h.load mb) := by
  have member := message.mem
  rw [copyLoop] at possible ⊢
  have dup : dupmsg h (some body) (shares j).copy ≠ .error .taken := by
    intro taken
    simp [taken] at possible
  rcases dupmsg_message sound message dup with ⟨short, h₁, run, sound₁, same⟩ | ⟨enough, h₁, copy, copies, run, sound₁,
    thinned, made, fresh, others, window⟩
  · have first := same.grown.spared sound message.live
    have live₁ (a : Addr) (inside : a ∈ chain) : (h₁.mblks.cells a).isSome := by
      rw [same.mblks]
      exact message.live a inside
    have unserved : (shares j).serves chain.length = false := by simp [Share.serves, short]
    simp only [run] at possible ⊢
    have build : buildUnitdataInd h₁ (protoOf hdr) (srcIp hdr) (dstIp hdr) (shares j).ind ≠ .error .taken := by
      intro taken
      simp [taken] at possible
    rcases buildUnitdataInd_built sound₁ build with ⟨-, h₂, built, sound₂, same₂⟩ | ⟨-, h₂, ind, run₂, built⟩
    · simp only [built]
      exact .inl ⟨unserved, h₂, rfl, sound₂, same₂.mblks.trans same.mblks,
        together first (same₂.grown.spared sound₁ live₁)⟩
    · have out := built.outside live₁
      obtain ⟨h₃, freed, sound₃, back⟩ :=
        freeCopy built.sound (together first (built.spared sound₁ live₁)) built.message
        (fun a inside single => out (List.mem_singleton.mp single ▸ inside))
        (fun a single => by rw [List.mem_singleton.mp single, ← same.mblks, built.fresh])
        (fun a outside => by rw [built.others a (by simpa using outside), same.mblks])
      simp only [run₂, freemsg_none, freed]
      exact .inl ⟨unserved, h₃, rfl, sound₃, back⟩
  · have apart (a : Addr) (inside : a ∈ chain) : a ∉ copies := by
      intro copied
      simpa [fresh a copied] using message.live a inside
    have first := thinned.spared sound₁ fun a inside => others a (apart a inside)
    have live₁ (a : Addr) (inside : a ∈ chain) : (h₁.mblks.cells a).isSome := by
      rw [others a (apart a inside)]
      exact message.live a inside
    simp only [run] at possible ⊢
    have build : buildUnitdataInd h₁ (protoOf hdr) (srcIp hdr) (dstIp hdr) (shares j).ind ≠ .error .taken := by
      intro taken
      simp [taken] at possible
    rcases buildUnitdataInd_built sound₁ build with ⟨refused, h₂, built, sound₂, same₂⟩ |
      ⟨granted, h₂, ind, run₂, built⟩
    · obtain ⟨h₃, freed, sound₃, back⟩ := freeCopy sound₂ (together first (same₂.grown.spared sound₁ live₁))
        (made.congr fun a _ => by rw [same₂.mblks]) apart fresh (fun a outside => by rw [same₂.mblks, others a outside])
      simp only [built, freed]
      exact .inl ⟨by simp [Share.serves, refused], h₃, rfl, sound₃, back⟩
    · obtain ⟨rest, rfl⟩ := made.head_eq
      have second := together first (built.spared sound₁ live₁)
      have alone := built.outside made.live
      obtain ⟨mb₀, mc, here₀, hereCopy, rptr, wptr, datap⟩ := window
      cases here.symm.trans here₀
      have hereCopy₂ : h₂.mblks.cells copy = some mc := built.grown.mblks copy mc hereCopy
      obtain ⟨h₃, db, put, found, left⟩ := deliver_left hereCopy₂ (modules rq) (shares j).serve rq built.sound
        (made.congr fun a inside => built.others a (ne_of_mem_of_not_mem inside alone)) built.live alone apart
          (built.outside live₁)
      have load : h₂.load mc = h.load mb := by
        rw [← second.2.load member here]
        funext i
        rw [Heap.load, Heap.load, datap, rptr]
      simp only [run₂, put]
      refine .inr ⟨by simp [Share.serves, granted, enough], h₃, ⟨rq, mc, db, h₂.load mc⟩, rfl,
        left.after second rptr wptr datap load, rfl, ⟨rptr, wptr, ?_⟩, load⟩
      intro db₀ found₀
      obtain ⟨db', found', -, lim⟩ := second.1.dblks body member mb db₀ here found₀
      rw [datap] at found
      cases found.symm.trans found'
      exact lim

end Rounds

end Kappara.Net
