import Kappara.Streams.Msg

/-! The reference counts of data blocks over every sequence of calls.

A data block counts the message blocks that point at it and a buffer has one data
block that owns it; both are live exactly as long. What was handed out by an
allocator is live or was returned, once for each time. -/

set_option autoImplicit false

namespace Kappara.Streams

open Refcount
open Function (comp_apply comp_update update update_cases)

variable {h h' : Heap} {mp : Addr} {mb : Mblk} {size : Nat} {grant : Grant} {answer result : Option Addr}

def Heap.points (h : Heap) : Addr → Option Addr := Option.map Mblk.datap ∘ h.mblks.cells

def Heap.refs (h : Heap) : Addr → Option Nat := Option.map (fun db => db.ref.toNat) ∘ h.dblks.cells

def Heap.bases (h : Heap) : Addr → Option Addr := (Option.bind · Dblk.base) ∘ h.dblks.cells

/-- A live buffer counts for one data block. -/
def Heap.singles (h : Heap) : Addr → Option Nat := Option.map (fun _ => 1) ∘ h.bufs.cells

open Heap (points refs bases singles)

structure Sound (h : Heap) : Prop where
  counted : Counted h.points h.refs
  owned : Counted h.bases h.singles
  room : ∀ d db, h.dblks.cells d = some db → db.lim ≤ kmallocMax
  mblks : h.mblks.Settled
  dblks : h.dblks.Settled
  bufs : h.bufs.Settled

structure Same (h h' : Heap) : Prop where
  mblks : h'.mblks.cells = h.mblks.cells
  dblks : h'.dblks.cells = h.dblks.cells
  bufs : h'.bufs.cells = h.bufs.cells

theorem Sound.empty : Sound Heap.empty where
  counted := .empty (fun _ => rfl) (fun _ => rfl)
  owned := .empty (fun _ => rfl) (fun _ => rfl)
  room := by simp [Heap.empty, Pool.empty]
  mblks := .empty
  dblks := .empty
  bufs := .empty

theorem Sound.dblk (sound : Sound h) (live : h.mblks.cells mp = some mb) :
    ∃ db, h.dblks.cells mb.datap = some db ∧ db.ref.toNat = (holders h.points mb.datap).card ∧
      0 < db.ref.toNat ∧ db.ref.toNat < 2 ^ 31 := by
  have here : h.points mp = some mb.datap := by simp [points, live]
  obtain ⟨k, found, size, positive⟩ := sound.counted.count_of_points here
  have bound := sound.counted.le found
  simp only [refs, comp_apply, Option.map_eq_some_iff] at found
  obtain ⟨db, found, rfl⟩ := found
  rw [Fintype.card_fin] at bound
  exact ⟨db, found, size, positive, Nat.lt_of_le_of_lt bound (by decide)⟩

theorem Sound.room_set {d : Addr} {db db' : Dblk} (sound : Sound h) (found : h.dblks.cells d = some db)
    (kept : db'.lim = db.lim) : ∀ e db'', (h.dblks.set d db').cells e = some db'' → db''.lim ≤ kmallocMax := by
  intro e db'' found'
  rcases update_cases found' with ⟨-, ⟨⟩⟩ | ⟨-, found'⟩
  · rw [kept]
    exact sound.room d db found
  · exact sound.room e db'' found'

section Alloc

/-- What allocb leaves: the live blocks as they were, or one new block of each kind. -/
inductive Allocb (h : Heap) (size : Nat) : Heap → Option Addr → Prop where
  | refused {h' : Heap} : Same h h' → h'.mblks = h.mblks → (h.dblks.Settled → h'.dblks.Settled) →
      (h.bufs.Settled → h'.bufs.Settled) → Allocb h size h' none
  | granted {d m : Addr} {buf : Option Addr} {bytes : Nat → Byte} : h.dblks.cells d = none → h.mblks.cells m = none →
      (∀ b, buf = some b → h.bufs.cells b = none) → size ≤ kmallocMax →
      Allocb h size ⟨h.mblks.take m ⟨none, 0, 0, d⟩, h.dblks.take d ⟨buf, size, 1#32, mData⟩,
        (h.takeBuf buf bytes).bufs⟩ (some m)

theorem Grant.possible_iff : grant.possible h size = true ↔ (∀ d, grant.dblk = some d → h.dblks.cells d = none) ∧
    (∀ b, grant.buf = some b → h.bufs.cells b = none ∧ size ≤ kmallocMax) ∧ ∀ m, grant.mblk = some m →
    h.mblks.cells m = none := by
  simp [Grant.possible, Option.all_eq_true, and_assoc]

theorem allocb_cases (run : allocb h size grant = .ok (h', result)) : Allocb h size h' result := by
  unfold allocb at run
  split at run
  next possible =>
    obtain ⟨dblkFree, bufFree, mblkFree⟩ := Grant.possible_iff.mp possible
    split at run
    · cases run
      exact .refused ⟨rfl, rfl, rfl⟩ rfl id id
    next d asked =>
      have free := dblkFree d asked
      have bufFree' : ∀ b, (if 0 < size then grant.buf else none) = some b → h.bufs.cells b = none ∧
          size ≤ kmallocMax := by
        intro b
        split
        · exact bufFree b
        · simp
      dsimp only at run
      generalize (if 0 < size then grant.buf else none) = buf at run bufFree'
      split at run
      · cases run
        exact .refused ⟨rfl, Pool.take_drop_cells free, rfl⟩ rfl (·.take_drop free) id
      next filled =>
        split at run
        · cases run
          cases buf with
          | none => exact .refused ⟨rfl, Pool.take_drop_cells free, rfl⟩ rfl (·.take_drop free) id
          | some b =>
            have free' := (bufFree' b rfl).1
            exact .refused ⟨rfl, Pool.take_drop_cells free, Pool.take_drop_cells free'⟩ rfl
              (·.take_drop free) (·.take_drop free')
        next m asked' =>
          cases run
          cases buf with
          | none =>
            exact @Allocb.granted h size d m none grant.bytes free (mblkFree m asked') (by simp)
              (by simp at filled; omega)
          | some b => exact .granted free (mblkFree m asked') (fun b found => (bufFree' b found).1) (bufFree' b rfl).2
  · cases run

theorem Sound.same (sound : Sound h) (same : Same h h') (mblks : h'.mblks.Settled) (dblks : h'.dblks.Settled)
    (bufs : h'.bufs.Settled) : Sound h' where
  counted := by simpa [points, refs, same.mblks, same.dblks] using sound.counted
  owned := by simpa [bases, singles, same.dblks, same.bufs] using sound.owned
  room := by simpa [same.dblks] using sound.room
  mblks := mblks
  dblks := dblks
  bufs := bufs

theorem Sound.allocb (sound : Sound h) (made : Allocb h size h' result) : Sound h' := by
  cases made with
  | refused same mblks dblks bufs => exact sound.same same (mblks ▸ sound.mblks) (dblks sound.dblks) (bufs sound.bufs)
  | @granted d m buf bytes dblkFree mblkFree bufFree room =>
    have unused : h.bases d = none := by simp [bases, dblkFree]
    constructor
    · have fresh : Counted (update h.points m (some d)) (update h.refs d (some 1)) :=
        sound.counted.fresh (by simp [points, mblkFree]) (by simp [refs, dblkFree])
      simpa [points, refs, comp_update] using fresh
    · cases buf with
      | none => simpa [bases, singles, comp_update, Heap.takeBuf] using sound.owned.keep unused
      | some b =>
        have fresh : Counted (update h.bases d (some b)) (update h.singles b (some 1)) :=
          sound.owned.fresh unused (by simp [singles, bufFree b rfl])
        simpa [bases, singles, comp_update, Heap.takeBuf] using fresh
    · intro e db found
      rcases update_cases found with ⟨-, ⟨⟩⟩ | ⟨-, found⟩
      · exact room
      · exact sound.room e db found
    · exact sound.mblks.take mblkFree
    · exact sound.dblks.take dblkFree
    · cases buf with
      | none => exact sound.bufs
      | some b => exact sound.bufs.take (bufFree b rfl)

end Alloc

section Free

variable {d b : Addr} {db : Dblk}

/-- What freeb leaves: the data block goes with its last message block and is kept for the others. -/
inductive Freeb (h : Heap) (mp : Addr) (mb : Mblk) : Heap → Prop where
  | last {db : Dblk} : h.dblks.cells mb.datap = some db → db.ref = 1#32 →
      Freeb h mp mb ⟨h.mblks.drop mp, h.dblks.drop mb.datap, (h.kfree db.base).bufs⟩
  | shared {db : Dblk} : h.dblks.cells mb.datap = some db → db.ref ≠ 1#32 →
      Freeb h mp mb ⟨h.mblks.drop mp, h.dblks.set mb.datap { db with ref := db.ref - 1#32 }, h.bufs⟩

@[simp] theorem kfree_mblks (buf : Option Addr) : (h.kfree buf).mblks = h.mblks := by cases buf <;> rfl

@[simp] theorem kfree_dblks (buf : Option Addr) : (h.kfree buf).dblks = h.dblks := by cases buf <;> rfl

theorem ref_sub_one_eq_zero (ref : BitVec 32) : ref - 1#32 = 0#32 ↔ ref = 1#32 := by
  bv_omega

theorem freeb_eq (live : h.mblks.cells mp = some mb) (found : h.dblks.cells mb.datap = some db) :
    ∃ h', freeb h (some mp) = .ok h' ∧ Freeb h mp mb h' := by
  by_cases one : db.ref = 1#32
  · refine ⟨_, ?_, .last found one⟩
    simp [freeb, live, found, one]
  · refine ⟨_, ?_, .shared found one⟩
    simp [freeb, live, found, ref_sub_one_eq_zero, one]

theorem freeb_cases (run : freeb h (some mp) = .ok h') : ∃ mb, h.mblks.cells mp = some mb ∧ Freeb h mp mb h' := by
  cases live : h.mblks.cells mp with
  | none => simp [freeb, live] at run
  | some mb =>
    cases found : h.dblks.cells mb.datap with
    | none => simp [freeb, live, found] at run
    | some db =>
      obtain ⟨h'', run', freed⟩ := freeb_eq live found
      cases run.symm.trans run'
      exact ⟨mb, rfl, freed⟩

theorem Freeb.mblks (freed : Freeb h mp mb h') : h'.mblks = h.mblks.drop mp := by
  cases freed <;> rfl

theorem Sound.buf (sound : Sound h) (found : h.dblks.cells d = some db) (owns : db.base = some b) :
    ∃ bytes, h.bufs.cells b = some bytes := by
  have here : h.bases d = some b := by simp [bases, found, owns]
  obtain ⟨k, single, -, -⟩ := sound.owned.count_of_points here
  simp only [singles, comp_apply, Option.map_eq_some_iff] at single
  obtain ⟨bytes, single, -⟩ := single
  exact ⟨bytes, single⟩

theorem Sound.freeb (sound : Sound h) (live : h.mblks.cells mp = some mb) (freed : Freeb h mp mb h') : Sound h' := by
  have here : h.points mp = some mb.datap := by simp [points, live]
  cases freed with
  | @last db found one =>
    have counted := sound.counted.detach here (k := 1) (by simp [refs, found, one])
    constructor
    · simpa [points, refs, comp_update] using counted
    · cases owns : db.base with
      | none =>
        have unused : h.bases mb.datap = none := by simp [bases, found, owns]
        simpa [bases, singles, comp_update, Heap.kfree] using sound.owned.keep unused
      | some b =>
        obtain ⟨bytes, single⟩ := sound.buf found owns
        have owned := sound.owned.detach (m := mb.datap) (d := b) (k := 1) (by simp [bases, found, owns])
          (by simp [singles, single])
        simpa [bases, singles, comp_update, Heap.kfree] using owned
    · intro e db' found'
      rcases update_cases found' with ⟨-, ⟨⟩⟩ | ⟨-, found'⟩
      exact sound.room e db' found'
    · exact sound.mblks.drop live
    · exact sound.dblks.drop found
    · cases owns : db.base with
      | none => exact sound.bufs
      | some b =>
        obtain ⟨bytes, single⟩ := sound.buf found owns
        exact sound.bufs.drop single
  | @shared db found more =>
    obtain ⟨db', found', size, positive, bound⟩ := sound.dblk live
    cases found.symm.trans found'
    have one : db.ref.toNat ≠ 1 := fun one => more (BitVec.eq_of_toNat_eq one)
    have less : (db.ref - 1#32).toNat = db.ref.toNat - 1 := by
      rw [BitVec.toNat_sub, BitVec.toNat_ofNat]
      omega
    have counted := sound.counted.detach here (k := db.ref.toNat) (by simp [refs, found])
    constructor
    · simpa [points, refs, comp_update, one, less] using counted
    · have kept : h.bases mb.datap = db.base := by simp [bases, found]
      simpa [bases, singles, comp_update] using sound.owned.keep kept
    · exact sound.room_set found rfl
    · exact sound.mblks.drop live
    · exact sound.dblks.set found
    · exact sound.bufs

end Free

section Dup

variable {a cp : Addr} {db : Dblk} {mb' : Mblk}

/-- What dupb leaves: nothing new, or a second message block on the same data block. -/
inductive Dupb (h : Heap) : Option Addr → Option Addr → Heap → Option Addr → Prop where
  | null {answer : Option Addr} : Dupb h none answer h none
  | refused {a : Addr} {mb : Mblk} : h.mblks.cells a = some mb → Dupb h (some a) none h none
  | granted {a cp : Addr} {mb : Mblk} {db : Dblk} : h.mblks.cells a = some mb → h.mblks.cells cp = none →
      h.dblks.cells mb.datap = some db →
      Dupb h (some a) (some cp) ⟨h.mblks.take cp { mb with cont := none },
        h.dblks.set mb.datap { db with ref := db.ref + 1#32 }, h.bufs⟩ (some cp)

theorem dupb_cases {mp : Option Addr} (run : dupb h mp answer = .ok (h', result)) : Dupb h mp answer h' result := by
  unfold dupb at run
  split at run
  · cases run
    exact .null
  · split at run
    · cases run
    next live =>
      split at run
      · cases run
        exact .refused live
      · split at run
        · cases run
        next free =>
          split at run
          · cases run
          next found =>
            cases run
            exact .granted live (by simpa using free) found

theorem dupb_eq (live : h.mblks.cells a = some mb) (free : h.mblks.cells cp = none)
    (found : h.dblks.cells mb.datap = some db) :
    ∃ h', dupb h (some a) (some cp) = .ok (h', some cp) ∧ Dupb h (some a) (some cp) h' (some cp) ∧
      h'.mblks.cells = update h.mblks.cells cp (some { mb with cont := none }) := by
  refine ⟨_, ?_, .granted live free found, rfl⟩
  simp [dupb, live, free, found]

theorem Sound.dupb {mp : Option Addr} (sound : Sound h) (made : Dupb h mp answer h' result) : Sound h' := by
  cases made with
  | null | refused => exact sound
  | @granted a cp mb db live free found =>
    obtain ⟨db', found', -, -, bound⟩ := sound.dblk live
    cases found.symm.trans found'
    have more : (db.ref + 1#32).toNat = db.ref.toNat + 1 := by
      rw [BitVec.toNat_add, BitVec.toNat_ofNat]
      omega
    have counted := sound.counted.attach (m := cp) (d := mb.datap) (k := db.ref.toNat) (by simp [points, free])
      (by simp [refs, found])
    constructor
    · simpa [points, refs, comp_update, more] using counted
    · have kept : h.bases mb.datap = db.base := by simp [bases, found]
      simpa [bases, singles, comp_update] using sound.owned.keep kept
    · exact sound.room_set found rfl
    · exact sound.mblks.take free
    · exact sound.dblks.set found
    · exact sound.bufs

theorem Sound.edit (sound : Sound h) (live : h.mblks.cells a = some mb) (kept : mb'.datap = mb.datap) :
    Sound { h with mblks := h.mblks.set a mb' } where
  counted := by
    have here : h.points a = some mb'.datap := by simp [points, live, kept]
    simpa [points, refs, comp_update] using sound.counted.keep here
  owned := sound.owned
  room := sound.room
  mblks := sound.mblks.set live
  dblks := sound.dblks
  bufs := sound.bufs

theorem Sound.setCont (sound : Sound h) (mp cont : Option Addr) : Sound (h.setCont mp cont) := by
  unfold Heap.setCont
  split
  · exact sound
  · split
    · exact sound
    next live => exact sound.edit live rfl

end Dup

end Kappara.Streams
