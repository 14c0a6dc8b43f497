import Kappara.Streams.Counts

/-! Messages as chains of blocks, and the runs of the calls.

Freeing a message frees the blocks of its chain and no others. A message that is
being copied has its copies in a chain of new blocks; when an allocation fails
they are freed, and since the counts follow from the message blocks all is as
before. -/

set_option autoImplicit false

namespace Kappara.Streams

open Refcount
open Function (comp_apply comp_update update update_cases update_of_ne)

variable {h h' : Heap} {mp : Addr} {mb : Mblk} {result : Option Addr}

section Loops

variable {h₀ h₁ h₂ : Heap} {a cp : Addr} {db : Dblk} {head tail start : Option Addr} {copies chain answers : List Addr}
  {fuel : Nat}

/-- What is left of data blocks and buffers after some have gone; only the counts have moved. -/
structure Thinned (h h' : Heap) : Prop where
  dblks : ∀ d db', h'.dblks.cells d = some db' → ∃ db, h.dblks.cells d = some db ∧ db' = { db with ref := db'.ref }
  bufs : ∀ b bytes, h'.bufs.cells b = some bytes → h.bufs.cells b = some bytes

theorem Thinned.refl : Thinned h h where
  dblks _ db' found := ⟨db', found, rfl⟩
  bufs _ _ found := found

theorem Thinned.trans (first : Thinned h₀ h₁) (second : Thinned h₁ h₂) : Thinned h₀ h₂ where
  dblks d db₂ found := by
    obtain ⟨db₁, found₁, same₁⟩ := second.dblks d db₂ found
    obtain ⟨db₀, found₀, same₀⟩ := first.dblks d db₁ found₁
    refine ⟨db₀, found₀, ?_⟩
    rw [same₁, same₀]
  bufs b bytes found := first.bufs b bytes (second.bufs b bytes found)

theorem Thinned.set_ref {mblks : Pool Addr Mblk} {d : Addr} {ref : BitVec 32} (found : h.dblks.cells d = some db) :
    Thinned h ⟨mblks, h.dblks.set d { db with ref := ref }, h.bufs⟩ where
  dblks e db' found' := by
    rcases update_cases found' with ⟨rfl, ⟨⟩⟩ | ⟨-, found'⟩
    · exact ⟨db, found, rfl⟩
    · exact ⟨db', found', rfl⟩
  bufs _ _ found := found

theorem update_none_eq_some {A V : Type} [DecidableEq A] {f : A → Option V} {a b : A} {v : V}
    (found : update f a none b = some v) : f b = some v := by
  rcases update_cases found with ⟨-, ⟨⟩⟩ | ⟨-, found⟩
  exact found

theorem Freeb.thinned (freed : Freeb h mp mb h') : Thinned h h' := by
  cases freed with
  | @last db found one =>
    constructor
    · intro d db' found'
      exact ⟨db', update_none_eq_some found', rfl⟩
    · intro b bytes found'
      cases owns : db.base with
      | none => simpa [Heap.kfree, owns] using found'
      | some c =>
        simp only [owns] at found'
        exact update_none_eq_some found'
  | shared found more => exact .set_ref found

/-- The counts follow from the message blocks, so the blocks are back when these are. -/
theorem Sound.restored (sound : Sound h) (sound' : Sound h') (thinned : Thinned h h')
    (mblks : h'.mblks.cells = h.mblks.cells) : Same h h' := by
  have refs : h'.refs = h.refs := by
    have counted := sound'.counted
    rw [Heap.points, mblks] at counted
    exact counted.unique sound.counted
  have dblks : h'.dblks.cells = h.dblks.cells := by
    funext d
    have here := congrFun refs d
    simp only [Heap.refs, comp_apply] at here
    cases found' : h'.dblks.cells d with
    | none => simpa [found', eq_comm] using here
    | some db' =>
      obtain ⟨db, found, same⟩ := thinned.dblks d db' found'
      rw [found, found', Option.map_some, Option.map_some, Option.some.injEq] at here
      rw [found, same, BitVec.eq_of_toNat_eq here]
  have singles : h'.singles = h.singles := by
    have owned := sound'.owned
    rw [Heap.bases, dblks] at owned
    exact owned.unique sound.owned
  refine ⟨mblks, dblks, ?_⟩
  funext b
  have here := congrFun singles b
  simp only [Heap.singles] at here
  cases found' : h'.bufs.cells b with
  | none => simpa [found', eq_comm] using here
  | some bytes => exact (thinned.bufs b bytes found').symm

theorem Sound.freemsgLoop (sound : Sound h) (run : freemsgLoop fuel h start = .ok h') : Sound h' := by
  induction fuel generalizing h start with
  | zero =>
    cases start with
    | none =>
      cases run
      exact sound
    | some mp => cases run
  | succ fuel ih =>
    cases start with
    | none =>
      cases run
      exact sound
    | some mp =>
      rw [Streams.freemsgLoop] at run
      split at run
      · cases run
      next freed =>
        obtain ⟨mb, live, effect⟩ := freeb_cases freed
        exact ih (sound.freeb live effect) run

/-- What freeing a message leaves: each of its blocks was returned once more, all others are as before. -/
structure Gone (h : Heap) (chain : List Addr) (h' : Heap) : Prop where
  sound : Sound h'
  thinned : Thinned h h'
  cells : ∀ a, h'.mblks.cells a = if a ∈ chain then none else h.mblks.cells a
  returned : ∀ a, h'.mblks.returned a = h.mblks.returned a + if a ∈ chain then 1 else 0

section

variable (sound : Sound h) (path : Links.Path h.cont start chain none) (once : chain.Nodup)
  (live : ∀ a ∈ chain, (h.mblks.cells a).isSome)
include sound path once live

theorem freemsgLoop_path (enough : chain.length ≤ fuel) :
    ∃ h', freemsgLoop fuel h start = .ok h' ∧ Gone h chain h' := by
  induction chain generalizing h start fuel with
  | nil =>
    cases path
    refine ⟨h, ?_, ⟨sound, .refl, by simp, by simp⟩⟩
    cases fuel <;> rfl
  | cons mp rest ih =>
    obtain ⟨rfl, path⟩ := path
    rw [List.nodup_cons] at once
    obtain ⟨mb, here⟩ := Option.isSome_iff_exists.mp (live mp List.mem_cons_self)
    obtain ⟨db, found, -⟩ := sound.dblk here
    obtain ⟨h₁, freed, effect⟩ := freeb_eq here found
    have other (a : Addr) (member : a ∈ rest) : h₁.mblks.cells a = h.mblks.cells a := by
      rw [effect.mblks, Pool.drop_cells, update_of_ne (ne_of_mem_of_not_mem member once.1)]
    cases fuel with
    | zero => simp at enough
    | succ fuel =>
      have path' : Links.Path h₁.cont (h.cont mp) rest none :=
        path.congr fun a member => by rw [Heap.cont, Heap.cont, other a member]
      obtain ⟨h', run, gone⟩ := ih (sound.freeb here effect) path' once.2
        (fun a member => by rw [other a member]; exact live a (List.mem_cons_of_mem mp member)) (by simpa using enough)
      refine ⟨h', by rw [Streams.freemsgLoop, freed]; exact run, gone.sound, effect.thinned.trans gone.thinned, ?_, ?_⟩
      · intro a
        by_cases same : a = mp
        · simp [gone.cells, effect.mblks, same]
        · simp [gone.cells, effect.mblks, same]
      · intro a
        by_cases same : a = mp
        · simp [gone.returned, effect.mblks, same, once.1]
        · simp [gone.returned, effect.mblks, same]

theorem freemsg_path : ∃ h', freemsg h start = .ok h' ∧ Gone h chain h' := by
  apply freemsgLoop_path sound path once live
  simpa using once.length_le_card

end

/-- The state of dupmsg: the copies made so far form a chain of new blocks, the others are as before. -/
structure Copying (h₀ h : Heap) (copies : List Addr) (head tail : Option Addr) : Prop where
  sound : Sound h
  thinned : Thinned h₀ h
  path : Links.Path h.cont head copies none
  last : tail = copies.getLast?
  once : copies.Nodup
  live : ∀ a ∈ copies, (h.mblks.cells a).isSome
  fresh : ∀ a ∈ copies, h₀.mblks.cells a = none
  others : ∀ a, a ∉ copies → h.mblks.cells a = h₀.mblks.cells a

theorem Copying.begin (sound : Sound h) : Copying h h [] none none where
  sound := sound
  thinned := .refl
  path := rfl
  last := rfl
  once := List.nodup_nil
  live := by simp
  fresh := by simp
  others _ _ := rfl

theorem Copying.unwind (sound : Sound h₀) (copying : Copying h₀ h copies head tail) :
    ∃ h', freemsg h head = .ok h' ∧ Sound h' ∧ Same h₀ h' := by
  obtain ⟨h', run, gone⟩ := freemsg_path copying.sound copying.path copying.once copying.live
  refine ⟨h', run, gone.sound, sound.restored gone.sound (copying.thinned.trans gone.thinned) ?_⟩
  funext a
  rw [gone.cells]
  split
  next member => exact (copying.fresh a member).symm
  next outside => exact copying.others a outside

theorem Copying.same (copying : Copying h₀ h copies none tail) (sound : Sound h₀) : Same h₀ h := by
  obtain ⟨h', freed, -, same⟩ := copying.unwind sound
  cases freed
  exact same

theorem setCont_cells_of_ne (other : tail ≠ some a) : (h.setCont tail start).mblks.cells a = h.mblks.cells a := by
  unfold Heap.setCont
  split
  · rfl
  next t =>
    split
    · rfl
    · exact update_of_ne (fun same => other (congrArg some same.symm)) _ _

theorem setCont_cont (head : Option Addr) (live : ∀ t, tail = some t → (h.mblks.cells t).isSome) :
    (h.setCont tail start).cont = (Links.redirect h.cont head tail start).1 := by
  cases tail with
  | none => rfl
  | some t =>
    obtain ⟨mb, here⟩ := Option.isSome_iff_exists.mp (live t rfl)
    funext a
    by_cases same : a = t
    · simp [Heap.setCont, Links.redirect, Heap.cont, here, same]
    · simp [Heap.setCont, Links.redirect, Heap.cont, here, same]

theorem setCont_thinned : Thinned h (h.setCont tail start) := by
  unfold Heap.setCont
  split
  · exact .refl
  · split
    · exact .refl
    · exact ⟨fun _ db' found => ⟨db', found, rfl⟩, fun _ _ found => found⟩

theorem setCont_isSome (a : Addr) : ((h.setCont tail start).mblks.cells a).isSome = (h.mblks.cells a).isSome := by
  by_cases same : tail = some a
  · subst same
    cases here : h.mblks.cells a with
    | none | some mb => simp [Heap.setCont, here]
  · rw [setCont_cells_of_ne same]

theorem Copying.step (copying : Copying h₀ h copies head tail) (made : Dupb h (some a) (some cp) h₁ result) :
    result = some cp ∧ Copying h₀ (h₁.setCont tail (some cp)) (copies ++ [cp]) (head.or (some cp)) (some cp) := by
  have sound := copying.sound.dupb made
  cases made with
  | @granted a cp mb db here free found =>
    have absent : cp ∉ copies := fun member => by simpa [free] using copying.live cp member
    have live (t : Addr) (last : tail = some t) : t ∈ copies := List.mem_of_getLast? (copying.last.symm.trans last)
    refine ⟨rfl, sound.setCont _ _, (copying.thinned.trans (.set_ref found)).trans setCont_thinned, ?_, by simp, ?_,
      ?_, ?_, ?_⟩
    · have cont : (⟨h.mblks.take cp { mb with cont := none }, h.dblks.set mb.datap { db with ref := db.ref + 1#32 },
          h.bufs⟩ : Heap).cont = update h.cont cp none := by
        funext x
        by_cases same : x = cp <;> simp [Heap.cont, same]
      have anchor : head.or (some cp) = (Links.redirect (update h.cont cp none) head tail (some cp)).2 := by
        rw [copying.path.head, copying.last]
        cases copies using List.reverseRecOn with
        | nil => rfl
        | append_singleton front p =>
          cases front <;> rfl
      rw [anchor, setCont_cont head, cont, copying.last]
      · exact copying.path.snoc copying.once absent
      · intro t last
        have member := live t last
        simpa [ne_of_mem_of_not_mem member absent] using copying.live t member
    · rw [List.nodup_append]
      refine ⟨copying.once, List.nodup_singleton cp, ?_⟩
      intro x member y single
      rw [List.mem_singleton.mp single]
      exact ne_of_mem_of_not_mem member absent
    · intro x member
      rw [setCont_isSome]
      by_cases same : x = cp
      · simp [same]
      · simpa [same] using copying.live x (by simpa [same] using member)
    · intro x member
      rcases List.mem_append.mp member with inside | single
      · exact copying.fresh x inside
      · rw [List.mem_singleton.mp single, ← copying.others cp absent]
        exact free
    · intro x outside
      rw [List.mem_append, List.mem_singleton, not_or] at outside
      rw [setCont_cells_of_ne (fun last => outside.1 (live x last)), ← copying.others x outside.1]
      exact update_of_ne outside.2 _ _

theorem Copying.run (sound : Sound h₀) (copying : Copying h₀ h copies head tail)
    (run : dupmsgLoop answers h start head tail = .ok (h', result)) : Sound h' ∧ (result = none → Same h₀ h') := by
  induction answers generalizing h copies head tail start <;> cases start
  case nil.none | cons.none =>
    cases run
    refine ⟨copying.sound, ?_⟩
    rintro rfl
    exact copying.same sound
  case nil.some =>
    rw [dupmsgLoop] at run
    split at run
    · cases run
    next made =>
      cases dupb_cases made
      obtain ⟨h'', freed, sound', same⟩ := copying.unwind sound
      rw [freed] at run
      cases run
      exact ⟨sound', fun _ => same⟩
  case cons.some ih _ =>
    rw [dupmsgLoop] at run
    split at run
    · cases run
    next made =>
      obtain ⟨rfl, copying'⟩ := copying.step (dupb_cases made)
      exact ih copying' run

end Loops

section Runs

variable {op : Op}

theorem toOption_eq_some {ε α : Type} {run : Except ε α} {value : α} (made : run.toOption = some value) :
    run = .ok value := by
  cases run with
  | error fault => cases made
  | ok value' =>
    cases made
    rfl

theorem toOption_fst_eq_some {ε α β : Type} {run : Except ε (α × β)} {value : α}
    (made : run.toOption.map Prod.fst = some value) : ∃ other, run = .ok (value, other) := by
  obtain ⟨⟨value', other⟩, ok, rfl⟩ := Option.map_eq_some_iff.mp made
  exact ⟨other, toOption_eq_some ok⟩

theorem Sound.set_buf {b : Addr} {bytes old : Nat → Byte} (sound : Sound h) (live : h.bufs.cells b = some old) :
    Sound { h with bufs := h.bufs.set b bytes } where
  counted := sound.counted
  owned := by
    have singles : update h.singles b (some 1) = h.singles := by
      simp [Heap.singles, live]
    have owned := sound.owned
    rw [← singles] at owned
    simpa [Heap.bases, Heap.singles, comp_update] using owned
  room := sound.room
  mblks := sound.mblks
  dblks := sound.dblks
  bufs := sound.bufs.set live

theorem Sound.set_type {d : Addr} {db : Dblk} {type : Byte} (sound : Sound h) (found : h.dblks.cells d = some db) :
    Sound { h with dblks := h.dblks.set d { db with type := type } } where
  counted := by
    have refs : update h.refs d (some db.ref.toNat) = h.refs := by
      simp [Heap.refs, found]
    have counted := sound.counted
    rw [← refs] at counted
    simpa [Heap.points, Heap.refs, comp_update] using counted
  owned := by
    have kept : h.bases d = db.base := by simp [Heap.bases, found]
    simpa [Heap.bases, Heap.singles, comp_update] using sound.owned.keep kept
  room := sound.room_set found rfl
  mblks := sound.mblks
  dblks := sound.dblks.set found
  bufs := sound.bufs

theorem Sound.fill {type : Byte} {bytes : Nat → Byte} (sound : Sound h) (run : fill h mp type bytes = .ok h') :
    Sound h' := by
  unfold Streams.fill at run
  split at run
  · cases run
  next mb live =>
    split at run
    · cases run
    next db found =>
      cases run
      have typed : Sound { h with dblks := h.dblks.set mb.datap { db with type := type } } := sound.set_type found
      split
      · exact typed
      next owns =>
        obtain ⟨old, single⟩ := sound.buf found owns
        exact typed.set_buf single

theorem Sound.step (sound : Sound h) (made : step h op = some h') : Sound h' := by
  cases op with
  | allocb size grant =>
    obtain ⟨result, run⟩ := toOption_fst_eq_some made
    exact sound.allocb (allocb_cases run)
  | freeb mp =>
    have run := toOption_eq_some made
    cases mp with
    | none =>
      cases run
      exact sound
    | some mp =>
      obtain ⟨mb, live, freed⟩ := freeb_cases run
      exact sound.freeb live freed
  | freemsg mp => exact sound.freemsgLoop (toOption_eq_some made)
  | dupb mp answer =>
    obtain ⟨result, run⟩ := toOption_fst_eq_some made
    exact sound.dupb (dupb_cases run)
  | dupmsg mp answers =>
    obtain ⟨result, run⟩ := toOption_fst_eq_some made
    exact ((Copying.begin sound).run sound run).1
  | edit mp cont rptr wptr =>
    have run := toOption_eq_some made
    unfold Streams.edit at run
    split at run
    · cases run
    next live =>
      cases run
      exact sound.edit live rfl
  | fill mp type bytes => exact sound.fill (toOption_eq_some made)

theorem Sound.reach (reached : Run.Reach Streams.step (fun _ _ => True) (· = Heap.empty) h) : Sound h := by
  refine reached.invariant ?_ ?_
  · rintro h rfl
    exact .empty
  · intro h op h' sound _ made
    exact sound.step made

theorem Sound.dblk_live (sound : Sound h) (d : Addr) :
    (h.dblks.cells d).isSome ↔ ∃ m mb, h.mblks.cells m = some mb ∧ mb.datap = d := by
  have dead := sound.counted.live d
  rw [← Finset.not_nonempty_iff_eq_empty, Finset.Nonempty] at dead
  simp only [Heap.refs, comp_apply, Option.map_eq_none_iff, mem_holders, Heap.points, Option.map_eq_some_iff] at dead
  rw [← Option.ne_none_iff_isSome, ne_eq, dead, not_not]

theorem Sound.buf_live (sound : Sound h) (b : Addr) : (h.bufs.cells b).isSome ↔ ∃! d, h.bases d = some b := by
  constructor
  · intro live
    obtain ⟨bytes, found⟩ := Option.isSome_iff_exists.mp live
    have one : 1 = (holders h.bases b).card := sound.owned.exact b 1 (by simp [Heap.singles, found])
    obtain ⟨d, single⟩ := Finset.card_eq_one.mp one.symm
    have here (e : Addr) : h.bases e = some b ↔ e = d := by
      rw [← mem_holders, single, Finset.mem_singleton]
    exact ⟨d, (here d).mpr rfl, fun e other => (here e).mp other⟩
  · rintro ⟨d, owns, -⟩
    obtain ⟨db, found, owns⟩ := Option.bind_eq_some_iff.mp owns
    obtain ⟨bytes, live⟩ := sound.buf found owns
    simp [live]

theorem Sound.freeb_returned (sound : Sound h) (live : h.mblks.cells mp = some mb) :
    ∃ h', Streams.freeb h (some mp) = .ok h' ∧
      (∀ d, h'.dblks.returned d = h.dblks.returned d + if holders h.points d = {mp} then 1 else 0) ∧
      ∀ d db b, h.dblks.cells d = some db → db.base = some b →
        h'.bufs.returned b = h.bufs.returned b + if holders h.points d = {mp} then 1 else 0 := by
  obtain ⟨db, found, size, -⟩ := sound.dblk live
  obtain ⟨h', run, freed⟩ := freeb_eq live found
  have member : mp ∈ holders h.points mb.datap := by simp [Heap.points, live]
  have other (d : Addr) (differs : d ≠ mb.datap) : holders h.points d ≠ {mp} := by
    intro only
    have here : mp ∈ holders h.points d := by simp [only]
    apply differs
    simpa [Heap.points, live, eq_comm] using here
  have last : holders h.points mb.datap = {mp} ↔ db.ref = 1#32 := by
    constructor
    · intro only
      apply BitVec.eq_of_toNat_eq
      rw [size, only]
      rfl
    · intro one
      rw [one] at size
      obtain ⟨m, only⟩ := Finset.card_eq_one.mp size.symm
      rw [only, Finset.mem_singleton] at member
      rw [only, member]
  refine ⟨h', run, ?_⟩
  cases freed with
  | @last db' found' one =>
    cases found.symm.trans found'
    have only := last.mpr one
    constructor
    · intro d
      by_cases same : d = mb.datap
      · simp [same, only]
      · simp [same, other d same]
    · intro d db' b here owns
      by_cases same : d = mb.datap
      · subst same
        cases found.symm.trans here
        simp [only, Heap.kfree, owns]
      · rw [if_neg (other d same)]
        cases owns' : db.base with
        | none => rfl
        | some c =>
          -- A buffer with another owner is another buffer.
          have apart : b ≠ c := by
            rintro rfl
            obtain ⟨bytes, live⟩ := sound.buf here owns
            obtain ⟨e, -, unique⟩ := (sound.buf_live b).mp (by rw [live]; rfl)
            apply same
            rw [unique d (by simp [Heap.bases, here, owns]), unique mb.datap (by simp [Heap.bases, found, owns'])]
          simp [Heap.kfree, apart]
  | @shared db' found' more =>
    cases found.symm.trans found'
    have kept (d : Addr) : holders h.points d ≠ {mp} := by
      by_cases same : d = mb.datap
      · rw [same]
        exact fun only => more (last.mp only)
      · exact other d same
    simp [kept]

/-- In every run each data block counts its message blocks, data blocks and buffers are returned with
the last of them, and a failed call leaves the live blocks as they were. -/
theorem blocks_counted (reached : Run.Reach Streams.step (fun _ _ => True) (· = Heap.empty) h) :
    (∀ d db, h.dblks.cells d = some db → db.ref.toInt = (holders h.points d).card) ∧
    (∀ d, (h.dblks.cells d).isSome ↔ ∃ m mb, h.mblks.cells m = some mb ∧ mb.datap = d) ∧
    (∀ b, (h.bufs.cells b).isSome ↔ ∃! d, h.bases d = some b) ∧ h.mblks.Settled ∧ h.dblks.Settled ∧ h.bufs.Settled ∧
    (∀ mp mb, h.mblks.cells mp = some mb → ∃ h', freeb h (some mp) = .ok h' ∧
      (∀ d, h'.dblks.returned d = h.dblks.returned d + if holders h.points d = {mp} then 1 else 0) ∧
      ∀ d db b, h.dblks.cells d = some db → db.base = some b →
        h'.bufs.returned b = h.bufs.returned b + if holders h.points d = {mp} then 1 else 0) ∧
    (∀ size grant h', allocb h size grant = .ok (h', none) → Same h h') ∧
    ∀ mp answers h', dupmsg h mp answers = .ok (h', none) → Same h h' := by
  have sound := Sound.reach reached
  refine ⟨?_, sound.dblk_live, sound.buf_live, sound.mblks, sound.dblks, sound.bufs,
    fun mp mb live => sound.freeb_returned live, ?_, ?_⟩
  · intro d db found
    have size : db.ref.toNat = (holders h.points d).card := sound.counted.exact d _ (by simp [Heap.refs, found])
    have live : (h.dblks.cells d).isSome := by simp [found]
    obtain ⟨m, mb, here, rfl⟩ := (sound.dblk_live d).mp live
    obtain ⟨db', found', -, -, bound⟩ := sound.dblk here
    cases found.symm.trans found'
    rw [BitVec.toInt_eq_toNat_of_lt (by omega), size]
  · intro size grant h' run
    cases allocb_cases run with
    | refused same => exact same
  · intro mp answers h' run
    exact ((Copying.begin sound).run sound run).2 rfl

def copiedTwice : List Op :=
  [.allocb 4 ⟨some 0, some 0, some 0, fun _ => 0#8⟩, .dupb (some 0) (some 1), .dupmsg (some 0) [2], .freeb (some 1)]

def Heap.refIs (d : Addr) (ref : BitVec 32) (h : Heap) : Bool :=
  match h.dblks.cells d with
  | none => false
  | some db => db.ref == ref

theorem blocks_counted_copied_twice :
    ∃ h, Run.Reach Streams.step (fun _ _ => True) (· = Heap.empty) h ∧ (holders h.points 0).card = 2 := by
  obtain ⟨h, reached, two⟩ : ∃ h, Run.Reach Streams.step (fun _ _ => True) (· = Heap.empty) h ∧ h.refIs 0 2#32 = true :=
    Run.Reach.found copiedTwice rfl (by decide +kernel)
  refine ⟨h, reached, ?_⟩
  cases found : h.dblks.cells 0 with
  | none => simp [Heap.refIs, found] at two
  | some db =>
    have counted := (blocks_counted reached).1 0 db found
    simp only [Heap.refIs, found, beq_iff_eq] at two
    rw [two] at counted
    exact Int.ofNat_inj.mp counted.symm

end Runs

end Kappara.Streams
