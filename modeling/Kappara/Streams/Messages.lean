import Kappara.Streams.Chains
import Kappara.Net.Rput

/-! Messages that are handled beside one another.

What is done to one message leaves the blocks of the others where they are, and
their data blocks with the same buffer. Copying a message gives a message of new
blocks with the same windows. -/

set_option autoImplicit false

namespace Kappara.Streams

open Refcount

variable {h h' h₀ h₁ h₂ : Heap} {a body : Addr} {mb : Mblk} {db : Dblk} {start : Option Addr}
  {chain other copies answers : List Addr}

structure Message (h : Heap) (start : Option Addr) (chain : List Addr) : Prop where
  path : Links.Path h.cont start chain none
  once : chain.Nodup
  live : ∀ a ∈ chain, (h.mblks.cells a).isSome

/-- The blocks of a chain are as they were, and their data blocks have the same buffers. -/
structure Spared (h h' : Heap) (chain : List Addr) : Prop where
  cells : ∀ a ∈ chain, h'.mblks.cells a = h.mblks.cells a
  dblks : ∀ a ∈ chain, ∀ mb db, h.mblks.cells a = some mb → h.dblks.cells mb.datap = some db →
    ∃ db', h'.dblks.cells mb.datap = some db' ∧ db'.base = db.base ∧ db'.lim = db.lim

/-- The bytes of a chain are as they were, from b_rptr on. -/
def Intact (h h' : Heap) (chain : List Addr) : Prop :=
  ∀ a ∈ chain, ∀ mb, h.mblks.cells a = some mb → ∀ i, mb.rptr ≤ i → h'.content mb.datap i = h.content mb.datap i

theorem Message.congr (message : Message h start chain) (same : ∀ a ∈ chain, h'.mblks.cells a = h.mblks.cells a) :
    Message h' start chain where
  path := message.path.congr fun a member => by rw [Heap.cont, Heap.cont, same a member]
  once := message.once
  live a member := by
    rw [same a member]
    exact message.live a member

theorem Spared.trans (first : Spared h₀ h₁ chain) (second : Spared h₁ h₂ chain) : Spared h₀ h₂ chain where
  cells a member := (second.cells a member).trans (first.cells a member)
  dblks a member mb db here found := by
    obtain ⟨db₁, found₁, base₁, lim₁⟩ := first.dblks a member mb db here found
    obtain ⟨db₂, found₂, base₂, lim₂⟩ := second.dblks a member mb db₁ ((first.cells a member).trans here) found₁
    exact ⟨db₂, found₂, base₂.trans base₁, lim₂.trans lim₁⟩

theorem Intact.trans (spared : Spared h₀ h₁ chain) (first : Intact h₀ h₁ chain) (second : Intact h₁ h₂ chain) :
    Intact h₀ h₂ chain := by
  intro a member mb here i inside
  rw [second a member mb ((spared.cells a member).trans here) i inside, first a member mb here i inside]

theorem Intact.load (intact : Intact h h' chain) (member : body ∈ chain) (here : h.mblks.cells body = some mb) :
    h'.load mb = h.load mb := by
  funext i
  exact intact body member mb here _ (Nat.le_add_right mb.rptr i)

theorem Thinned.spared (sound : Sound h') (thinned : Thinned h h')
    (cells : ∀ a ∈ chain, h'.mblks.cells a = h.mblks.cells a) : Spared h h' chain ∧ Intact h h' chain := by
  have dblk (a : Addr) (member : a ∈ chain) (mb : Mblk) (here : h.mblks.cells a = some mb) :
      ∃ db db', h.dblks.cells mb.datap = some db ∧ h'.dblks.cells mb.datap = some db' ∧
        db' = { db with ref := db'.ref } := by
    obtain ⟨db', found', -⟩ := sound.dblk ((cells a member).trans here)
    obtain ⟨db, found, same⟩ := thinned.dblks mb.datap db' found'
    exact ⟨db, db', found, found', same⟩
  refine ⟨⟨cells, ?_⟩, ?_⟩
  · intro a member mb db here found
    obtain ⟨db₀, db', found₀, found', same⟩ := dblk a member mb here
    cases found.symm.trans found₀
    exact ⟨db', found', by rw [same], by rw [same]⟩
  · intro a member mb here i _
    obtain ⟨db, db', found, found', same⟩ := dblk a member mb here
    have base : db'.base = db.base := by rw [same]
    simp only [Heap.content, found, found', Option.bind_some, base]
    cases owns : db.base with
    | none => rfl
    | some b =>
      obtain ⟨bytes, live⟩ := sound.buf found' (base.trans owns)
      simp [live, thinned.bufs b bytes live]

structure Grown (h h' : Heap) : Prop where
  mblks : ∀ a mb, h.mblks.cells a = some mb → h'.mblks.cells a = some mb
  dblks : ∀ d db, h.dblks.cells d = some db → h'.dblks.cells d = some db
  bufs : ∀ b bytes, h.bufs.cells b = some bytes → h'.bufs.cells b = some bytes

theorem Grown.spared (sound : Sound h) (grown : Grown h h') (live : ∀ a ∈ chain, (h.mblks.cells a).isSome) :
    Spared h h' chain ∧ Intact h h' chain := by
  refine ⟨⟨?_, ?_⟩, ?_⟩
  · intro a member
    obtain ⟨mb, here⟩ := Option.isSome_iff_exists.mp (live a member)
    rw [here, grown.mblks a mb here]
  · intro a _ mb db _ found
    exact ⟨db, grown.dblks mb.datap db found, rfl, rfl⟩
  · intro a _ mb here i _
    obtain ⟨db, found, -⟩ := sound.dblk here
    simp only [Heap.content, found, grown.dblks mb.datap db found, Option.bind_some]
    cases owns : db.base with
    | none => rfl
    | some b =>
      obtain ⟨bytes, live⟩ := sound.buf found owns
      simp [live, grown.bufs b bytes live]

theorem Same.grown (same : Same h h') : Grown h h' where
  mblks a mb here := by rwa [same.mblks]
  dblks d db found := by rwa [same.dblks]
  bufs b bytes live := by rwa [same.bufs]

theorem Message.freemsg (sound : Sound h) (message : Message h start chain) :
    ∃ h', freemsg h start = .ok h' ∧ Gone h chain h' := freemsg_path sound message.path message.once message.live

theorem Gone.spared (gone : Gone h other h') (apart : ∀ a ∈ chain, a ∉ other) :
    Spared h h' chain ∧ Intact h h' chain := by
  apply gone.thinned.spared gone.sound
  intro a member
  rw [gone.cells, if_neg (apart a member)]

section Copies

/-- The windows of two chains of blocks are the same. -/
def SameWindow (h h' : Heap) (a b : Addr) : Prop :=
  ∃ mb mb', h.mblks.cells a = some mb ∧ h'.mblks.cells b = some mb' ∧ mb'.rptr = mb.rptr ∧ mb'.wptr = mb.wptr ∧
    mb'.datap = mb.datap

theorem SameWindow.setCont {b : Addr} {tail cont : Option Addr} (same : SameWindow h h' a b) :
    SameWindow h (h'.setCont tail cont) a b := by
  obtain ⟨mb, mb', here, here', rptr, wptr, datap⟩ := same
  by_cases last : tail = some b
  · refine ⟨mb, { mb' with cont := cont }, here, ?_, rptr, wptr, datap⟩
    simp [last, Heap.setCont, here']
  · exact ⟨mb, mb', here, by rw [setCont_cells_of_ne last, here'], rptr, wptr, datap⟩

/-- The loop of dupmsg over the rest of a message; the first copy has the window of the first block. -/
theorem Copying.finish {head tail : Option Addr} (sound : Sound h₀) (copying : Copying h₀ h copies head tail)
    (path : Links.Path h₀.cont start chain none) (live : ∀ a ∈ chain, (h₀.mblks.cells a).isSome)
    (first : ∀ c, head = some c → SameWindow h₀ h body c) (opening : head = none → start = some body)
    (possible : dupmsgLoop answers h start head tail ≠ .error .taken) :
    (answers.length < chain.length ∧ ∃ h', dupmsgLoop answers h start head tail = .ok (h', none) ∧ Sound h' ∧
    Same h₀ h') ∨
    (chain.length ≤ answers.length ∧ ∃ h' copies' copy tail', dupmsgLoop answers h start head tail =
      .ok (h', some copy) ∧ Copying h₀ h' copies' (some copy) tail' ∧ SameWindow h₀ h' body copy) := by
  induction chain generalizing h copies head tail start answers with
  | nil =>
    cases path
    cases head with
    | none => cases opening rfl
    | some copy => exact .inr ⟨Nat.zero_le _, h, copies, copy, tail, by cases answers <;> rfl, copying, first copy rfl⟩
  | cons a rest ih =>
    obtain ⟨rfl, path⟩ := path
    obtain ⟨mb, here₀⟩ := Option.isSome_iff_exists.mp (live a List.mem_cons_self)
    have absent : a ∉ copies := fun member => by simpa [here₀] using copying.fresh a member
    have here : h.mblks.cells a = some mb := (copying.others a absent).trans here₀
    obtain ⟨db, found, -⟩ := copying.sound.dblk here
    cases answers with
    | nil =>
      obtain ⟨h', freed, sound', same⟩ := copying.unwind sound
      refine .inl ⟨by simp, h', ?_, sound', same⟩
      simp [dupmsgLoop, dupb, here, freed]
    | cons cp answers =>
      cases free : h.mblks.cells cp with
      | some _ => simp [dupmsgLoop, dupb, here, free] at possible
      | none =>
        obtain ⟨h₁, made, effect, cells⟩ := dupb_eq here free found
        obtain ⟨-, copying'⟩ := copying.step effect
        -- The source block is live, so the copy is another block and leaves it as it is.
        have other (b : Addr) (at_b : (h.mblks.cells b).isSome) : b ≠ cp := by
          rintro rfl
          simp [free] at at_b
        have onward := copying'.others a (by simp [absent, other a (by simp [here])])
        have run : dupmsgLoop (cp :: answers) h (some a) head tail =
            dupmsgLoop answers (h₁.setCont tail (some cp)) (h₀.cont a) (head.or (some cp)) (some cp) := by
          rw [dupmsgLoop, made]
          simp [Heap.cont, onward]
        rw [run] at possible ⊢
        have window (c : Addr) (chosen : head.or (some cp) = some c) :
            SameWindow h₀ (h₁.setCont tail (some cp)) body c := by
          apply SameWindow.setCont
          cases head with
          | none =>
            cases chosen
            cases opening rfl
            exact ⟨mb, { mb with cont := none }, here₀, by simp [cells], rfl, rfl, rfl⟩
          | some c =>
            cases chosen
            obtain ⟨mb₀, mb', at₀, at', window⟩ := first c rfl
            exact ⟨mb₀, mb', at₀, by rw [cells, Function.update_of_ne (other c (by simp [at'])), at'], window⟩
        have nonempty : head.or (some cp) ≠ none := by cases head <;> simp
        have rest := ih copying' path (fun b member => live b (List.mem_cons_of_mem a member)) window
          (fun empty => absurd empty nonempty) possible
        simpa using rest

theorem dupmsg_message (sound : Sound h) (message : Message h (some body) chain)
    (possible : dupmsg h (some body) answers ≠ .error .taken) :
    (answers.length < chain.length ∧ ∃ h', dupmsg h (some body) answers = .ok (h', none) ∧ Sound h' ∧ Same h h') ∨
    (chain.length ≤ answers.length ∧ ∃ h' copy copies, dupmsg h (some body) answers = .ok (h', some copy) ∧ Sound h' ∧
      Thinned h h' ∧ Message h' (some copy) copies ∧ (∀ a ∈ copies, h.mblks.cells a = none) ∧
      (∀ a, a ∉ copies → h'.mblks.cells a = h.mblks.cells a) ∧ SameWindow h h' body copy) := by
  rcases (Copying.begin sound).finish sound message.path message.live (by simp) (fun _ =>
    rfl) possible with failed | made
  · exact .inl failed
  · obtain ⟨enough, h', copies, copy, tail, run, copying, window⟩ := made
    exact .inr ⟨enough, h', copy, copies, run, copying.sound, copying.thinned,
      ⟨copying.path, copying.once, copying.live⟩, copying.fresh, copying.others, window⟩

end Copies

end Kappara.Streams
