import Kappara.Io.Lists

/-! Delayed writes are not lost.

Beside the cache, a run keeps what bdwrite was last called with for each block,
until a holder stores into the buffer of the block or writes other bytes. These
bytes stay in a dirty buffer or reach the device, unless a write-back fails, a
write turns into a read, or a buffer is evicted that somebody holds. -/

set_option autoImplicit false

namespace Kappara.Io

open Links
open Function (update update_cases update_of_ne update_self)

variable {n : Nat}

/-- The callers of the cache, and the bytes of delayed writes that nothing has replaced. -/
structure Tracked (n : Nat) where
  state : State n
  promised : Key → Option Block

def promise (s : State n) (promised : Key → Option Block) : Op n → Key → Option Block
  | .bdwrite h => update promised h.2 (some (s.cache.bufs h.1).data)
  | .fill h _ _ => update promised h.2 none
  | .bwrite h _ => if promised h.2 = some (s.cache.bufs h.1).data then promised else update promised h.2 none
  | _ => promised

section

variable (drivers : BitVec 8 → Bool) (t : Tracked n)

def trackedStep (op : Op n) : Option (Tracked n) :=
  (step drivers t.state op).map fun s => ⟨s, promise t.state t.promised op⟩

def TrackedStart : Prop := Started t.state ∧ t.promised = fun _ => none

/-- The bytes of every delayed write are in a dirty buffer of the block or on the device. -/
def NothingLost : Prop :=
  ∀ key data, t.promised key = some data →
    (∃ i, (t.state.cache.bufs i).key = key ∧ (t.state.cache.bufs i).flags.delwri = true ∧
      (t.state.cache.bufs i).data = data) ∨ t.state.cache.disk key = data

/-- A miss would evict a buffer nobody holds, that is clean or whose write-back takes place, and that
hash_remove takes out of its chain. -/
def victimKept (c : Cache n) (key : Key) (wb : Bool) : Bool :=
  match hashLookup c key, c.lru.head with
  | some none, some i =>
    !(c.bufs i).flags.busy && (!(c.bufs i).flags.delwri || moves drivers wb (c.bufs i) && !(c.bufs i).flags.read) &&
      !((c.bufs i).dev == noDev && hashLookup c (c.bufs i).key == some (some i))
  | _, _ => true

def losesNothing (s : State n) : Op n → Bool
  | .getblk key wb => victimKept drivers s.cache key wb
  | .bread key wb _ => victimKept drivers s.cache key wb
  | .bwrite h ok => !(moves drivers ok (s.cache.bufs h.1) && (s.cache.bufs h.1).flags.read)
  | _ => true

end

section Promises

variable {drivers : BitVec 8 → Bool} {ok wb : Bool} {c c' : Cache n} {i : Fin n} {key : Key}
  {promised promised' : Key → Option Block}

structure Keeps (promised : Key → Option Block) (c : Cache n) : Prop where
  same : ∀ key data i, promised key = some data → (c.bufs i).key = key → (c.bufs i).flags.delwri = true →
    (c.bufs i).data = data
  kept : ∀ key data, promised key = some data →
    (∃ i, (c.bufs i).key = key ∧ (c.bufs i).flags.delwri = true) ∨ c.disk key = data
  valid : ∀ i, (c.bufs i).flags.delwri = true → (c.bufs i).flags.valid = true

section

variable (keeps : Keeps promised c)
include keeps

theorem Keeps.change (i : Fin n) (others : ∀ j, j ≠ i → c'.bufs j = c.bufs j)
    (same : ∀ key data, promised' key = some data → (c'.bufs i).key = key → (c'.bufs i).flags.delwri = true →
      (c'.bufs i).data = data)
    (apart : ∀ key data j, j ≠ i → promised' key = some data → (c.bufs j).key = key → (c.bufs j).flags.delwri = true →
      (c.bufs j).data = data) (kept : ∀ key data, promised' key = some data →
      ((c'.bufs i).key = key ∧ (c'.bufs i).flags.delwri = true) ∨
        (∃ j, j ≠ i ∧ (c.bufs j).key = key ∧ (c.bufs j).flags.delwri = true) ∨ c'.disk key = data)
    (valid : (c'.bufs i).flags.delwri = true → (c'.bufs i).flags.valid = true) : Keeps promised' c' where
  same key data j promise carries dirty := by
    by_cases here : j = i
    · subst here
      exact same key data promise carries dirty
    · rw [others j here] at carries dirty ⊢
      exact apart key data j here promise carries dirty
  kept key data promise := by
    rcases kept key data promise with here | ⟨j, other, there⟩ | stored
    · exact .inl ⟨i, here⟩
    · refine .inl ⟨j, ?_⟩
      rw [others j other]
      exact there
    · exact .inr stored
  valid j dirty := by
    by_cases here : j = i
    · subst here
      exact valid dirty
    · rw [others j here] at dirty ⊢
      exact keeps.valid j dirty

theorem Keeps.split (i : Fin n) {data : Block} (promise : promised key = some data) :
    ((c.bufs i).key = key ∧ (c.bufs i).flags.delwri = true) ∨
      (∃ j, j ≠ i ∧ (c.bufs j).key = key ∧ (c.bufs j).flags.delwri = true) ∨ c.disk key = data := by
  rcases keeps.kept key data promise with ⟨j, carries, dirty⟩ | stored
  · by_cases here : j = i
    · subst here
      exact .inl ⟨carries, dirty⟩
    · exact .inr (.inl ⟨j, here, carries, dirty⟩)
  · exact .inr (.inr stored)

theorem Keeps.marked (i : Fin n) (f : Flags → Flags) (valid : (f (c.bufs i).flags).valid = (c.bufs i).flags.valid)
    (delwri : (f (c.bufs i).flags).delwri = (c.bufs i).flags.delwri) : Keeps promised (c.mark i f) := by
  have self : (c.mark i f).bufs i = { c.bufs i with flags := f (c.bufs i).flags } := mark_self c i f
  apply keeps.change i (fun j other => mark_of_ne c i f other)
  · intro key data promise carries dirty
    rw [self] at carries dirty ⊢
    exact keeps.same key data i promise carries (delwri ▸ dirty)
  · intro key data j _ promise
    exact keeps.same key data j promise
  · intro key data promise
    rw [self, delwri]
    exact keeps.split i promise
  · rw [self, delwri, valid]
    exact keeps.valid i

theorem Keeps.released (i : Fin n) : Keeps promised (brelse c i) := by
  have marked := keeps.marked i (fun f => { f with busy := false }) rfl rfl
  exact ⟨marked.same, marked.kept, marked.valid⟩

theorem Keeps.unlinked (q : Queue (Fin n)) : Keeps promised { c with lru := q } :=
  ⟨keeps.same, keeps.kept, keeps.valid⟩

theorem Keeps.landed (landed : Landed c c' i)
    (agree : ∀ data, promised' (c.bufs i).key = some data → data = (c.bufs i).data)
    (rest : ∀ key data, promised' key = some data → promised key = some data) : Keeps promised' c' := by
  have clean {P : Prop} (dirty : (c'.bufs i).flags.delwri = true) : P := by
    rw [landed.delwri] at dirty
    cases dirty
  apply keeps.change i landed.others
  · intro key data _ _ dirty
    exact clean dirty
  · intro key data j _ promise
    exact keeps.same key data j (rest key data promise)
  · intro key data promise
    rw [landed.disk]
    by_cases here : key = (c.bufs i).key
    · subst here
      rw [update_self]
      exact .inr (.inr (agree data promise).symm)
    · rw [update_of_ne here]
      rcases keeps.split i (rest key data promise) with ⟨carries, -⟩ | others
      · exact absurd carries.symm here
      · exact .inr others
  · intro dirty
    exact clean dirty

theorem Keeps.writeBack
    (lands : (c.bufs i).flags.delwri = true → moves drivers wb (c.bufs i) = true ∧ (c.bufs i).flags.read = false) :
    Keeps promised (writeBack drivers wb c i) ∧ ((writeBack drivers wb c i).bufs i).flags.delwri = false ∧
      ∀ j, j ≠ i → (writeBack drivers wb c i).bufs j = c.bufs j := by
  unfold Io.writeBack
  split
  next dirty =>
    obtain ⟨moved, plain⟩ := lands dirty
    have landed := @bwrite_landed n drivers wb { c with lru := c.lru.unlink i } i moved plain
    refine ⟨?_, landed.delwri, landed.others⟩
    apply (keeps.unlinked (c.lru.unlink i)).landed landed
    · intro data promise
      exact (keeps.same _ data i promise rfl dirty).symm
    · exact fun _ _ promise => promise
  next clean => exact ⟨keeps.unlinked _, Bool.eq_false_iff.mpr clean, fun _ _ => rfl⟩

theorem Keeps.replaced (clean : (c.bufs i).flags.delwri = false)
    (others : ∀ j, j ≠ i → c'.bufs j = c.bufs j) (still : (c'.bufs i).flags.delwri = false) (disk : c'.disk = c.disk) :
    Keeps promised c' := by
  apply keeps.change i others
  · intro _ _ _ _ dirty
    rw [still] at dirty
    cases dirty
  · intro key data j _ promise
    exact keeps.same key data j promise
  · intro key data promise
    rw [disk]
    rcases keeps.split i promise with ⟨-, dirty⟩ | rest
    · rw [clean] at dirty
      cases dirty
    · exact .inr rest
  · intro dirty
    rw [still] at dirty
    cases dirty

end

end Promises

section Safe

variable {drivers : BitVec 8 → Bool} {ok wb : Bool} {c c' : Cache n} {i : Fin n} {key : Key} {held : List (Handle n)}
  {h : Handle n} {promised promised' : Key → Option Block}

-- Held and dirty buffers are the ones their blocks lead to, and a buffer has one holder.
structure Safe (promised : Key → Option Block) (c : Cache n) (held : List (Handle n)) : Prop where
  table : ∃ chains, Tabled c chains ∧ (∀ h ∈ held, h.1 ∈ chains (bufHashIdx h.2)) ∧
    ∀ i, (c.bufs i).flags.delwri = true → i ∈ chains (bufHashIdx (c.bufs i).key)
  keys : ∀ h ∈ held, (c.bufs h.1).key = h.2
  busy : ∀ h ∈ held, c.busy h.1 = true
  once : (held.map Prod.fst).Nodup
  keeps : Keeps promised c

section

variable (safe : Safe promised c held)
include safe

theorem Safe.released (member : h ∈ held) (released : Released c c' h.1)
    (dirty : ∀ i, i ≠ h.1 → (c'.bufs i).flags.delwri = true → (c.bufs i).flags.delwri = true)
    (keeps : Keeps promised' c') : Safe promised' c' (held.erase h) where
  table := by
    obtain ⟨chains, tabled, heldIn, dirtyIn⟩ := safe.table
    refine ⟨chains, tabled.same released.table, fun g inside => heldIn g (List.mem_of_mem_erase inside),
      fun i marked => ?_⟩
    rw [released.table.keys]
    by_cases here : i = h.1
    · rw [here, safe.keys h member]
      exact heldIn h member
    · exact dirtyIn i (dirty i here marked)
  keys g inside := by
    rw [released.table.keys]
    exact safe.keys g (List.mem_of_mem_erase inside)
  busy g inside := by
    obtain ⟨old, apart⟩ := held_erase safe.once member inside
    rw [released.busy, update_of_ne apart]
    exact safe.busy g old
  once := safe.once.sublist ((List.erase_sublist).map Prod.fst)
  keeps := keeps

theorem Safe.lists (same : SameLists c c')
    (dirty : ∀ i, (c'.bufs i).flags.delwri = true → (c.bufs i).flags.delwri = true) (keeps : Keeps promised' c') :
    Safe promised' c' held where
  table := by
    obtain ⟨chains, tabled, heldIn, dirtyIn⟩ := safe.table
    refine ⟨chains, tabled.same same.table, heldIn, fun i marked => ?_⟩
    rw [same.table.keys]
    exact dirtyIn i (dirty i marked)
  keys g inside := by
    rw [same.table.keys]
    exact safe.keys g inside
  busy g inside := by
    rw [same.busy]
    exact safe.busy g inside
  once := safe.once
  keeps := keeps

theorem Safe.getblk {got : Option (Fin n)} (victim : victimKept drivers c key wb = true)
    (returned : getblk drivers wb c key = some (c', got)) :
    (got = none → Safe promised c' held) ∧ ∀ i, got = some i → Safe promised c' ((i, key) :: held) := by
  obtain ⟨chains, tabled, heldIn, dirtyIn⟩ := safe.table
  cases getblk_got returned with
  | full => exact ⟨fun _ => safe, nofun⟩
  | @hit i found free =>
    refine ⟨nofun, fun _ same => ?_⟩
    cases same
    have table := (unlink_table c i).trans (mark_table _ i fun f => { f with busy := true })
    refine ⟨⟨chains, tabled.same table, ?_, fun j dirty => ?_⟩, ?_, ?_, held_cons key free safe.busy safe.once, ?_⟩
    · rintro h (_ | ⟨_, inside⟩)
      · exact (tabled.lookup_some found).2
      · exact heldIn h inside
    · rw [table.keys]
      apply dirtyIn
      by_cases here : j = i
      · subst here
        simpa using dirty
      · simpa [here] using dirty
    · rintro h (_ | ⟨_, inside⟩)
      · rw [table.keys]
        exact (tabled.lookup_some found).1
      · rw [table.keys]
        exact safe.keys h inside
    · rw [mark_busy]
      exact busy_cons key free safe.busy
    · exact (safe.keeps.unlinked _).marked i _ rfl rfl
  | @evicted i c₂ missing head removed =>
    refine ⟨nofun, fun _ same => ?_⟩
    cases same
    rw [victimKept, missing, head] at victim
    simp only [Bool.and_eq_true, Bool.not_eq_true', Bool.or_eq_true, Bool.and_eq_false_iff,
      beq_eq_false_iff_ne] at victim
    obtain ⟨⟨free, clean⟩, placed⟩ := victim
    obtain ⟨⟨bufs, -, disk⟩, chains', tabled', members⟩ :=
      tabled.evicted missing (tabled.unlinked placed) (writeBack_table drivers wb c i) removed
    have lands (dirty : (c.bufs i).flags.delwri = true) :
        moves drivers wb (c.bufs i) = true ∧ (c.bufs i).flags.read = false := by
      rcases clean with clean | lands
      · rw [dirty] at clean
        cases clean
      · exact lands
    obtain ⟨keeps, written, others⟩ := safe.keeps.writeBack lands
    have self := assigned_self c₂ i key
    have rest (j : Fin n) (other : j ≠ i) : (hashInsert (c₂.assign i key) i).bufs j = c.bufs j := by
      rw [assigned_of_ne c₂ key other, bufs, others j other]
    have apart (h : Handle n) (inside : h ∈ held) : h.1 ≠ i := by
      intro same
      have busy := safe.busy h inside
      rw [same, Cache.busy, free] at busy
      cases busy
    refine ⟨⟨chains', tabled', ?_, fun j dirty => ?_⟩, ?_, ?_, held_cons key free safe.busy safe.once, ?_⟩
    · rintro h (_ | ⟨_, inside⟩)
      · exact (members _ _).mpr (.inr ⟨rfl, rfl⟩)
      · exact (members _ _).mpr (.inl ⟨heldIn h inside, apart h inside⟩)
    · by_cases here : j = i
      · rw [here, self] at dirty
        cases dirty
      · rw [rest j here] at dirty ⊢
        exact (members _ _).mpr (.inl ⟨dirtyIn j dirty, here⟩)
    · rintro h (_ | ⟨_, inside⟩)
      · rw [self]
        rfl
      · rw [rest h.1 (apart h inside)]
        exact safe.keys h inside
    · rintro h (_ | ⟨_, inside⟩)
      · rw [Cache.busy, self]
      · rw [Cache.busy, rest h.1 (apart h inside)]
        exact safe.busy h inside
    · apply keeps.replaced written
      · intro j other
        rw [rest j other, others j other]
      · rw [self]
        rfl
      · exact disk

theorem Safe.bread {got : Option (Fin n)} (victim : victimKept drivers c key wb = true)
    (returned : bread drivers wb ok c key = some (c', got)) :
    (got = none → Safe promised c' held) ∧ ∀ i, got = some i → Safe promised c' ((i, key) :: held) := by
  cases bread_fetched returned with
  | full made | cached made => exact safe.getblk victim made
  | @transferred c₁ i made invalid =>
    refine ⟨nofun, fun _ same => ?_⟩
    cases same
    have taken := (safe.getblk victim made).2 i rfl
    have clean : (c₁.bufs i).flags.delwri = false := by
      rw [← Bool.not_eq_true]
      intro dirty
      rw [taken.keeps.valid i dirty] at invalid
      cases invalid
    apply taken.lists ((fill_lists c₁ i _).trans (mark_lists _ i _ rfl))
    · intro j dirty
      by_cases here : j = i
      · subst here
        simpa using dirty
      · simpa [here] using dirty
    · exact taken.keeps.replaced clean (fun j other => by simp [other]) (by simpa using clean) rfl
  | @failed c₁ i made =>
    refine ⟨fun _ => ?_, nofun⟩
    have taken := (safe.getblk victim made).2 i rfl
    have marked := mark_lists c₁ i (fun f => { f with read := true, done := true, error := true }) rfl
    have released := taken.released List.mem_cons_self ((brelse_released _ i).before marked)
      (fun j other dirty => by simpa [brelse, other] using dirty) ((taken.keeps.marked i _ rfl rfl).released i)
    rwa [List.erase_cons_head] at released

theorem Safe.fill {data : Block} {valid : Bool} (member : h ∈ held) : Safe (update promised h.2 none)
      ((c.fill h.1 data).mark h.1 fun f => { f with valid := valid || f.valid }) held := by
  have still {key : Key} {bytes : Block} (promise : update promised h.2 none key = some bytes) :
      key ≠ h.2 ∧ promised key = some bytes := by
    rcases update_cases promise with ⟨-, ⟨⟩⟩ | still
    exact still
  have carries : (((c.fill h.1 data).mark h.1 fun f => { f with valid := valid || f.valid }).bufs h.1).key = h.2 := by
    rw [mark_key, fill_key]
    exact safe.keys h member
  apply safe.lists ((fill_lists c h.1 data).trans (mark_lists _ h.1 _ rfl))
  · intro j dirty
    by_cases here : j = h.1
    · subst here
      simpa using dirty
    · simpa [here] using dirty
  · apply safe.keeps.change h.1 (fun j other => by simp [other])
    · intro key bytes promise same
      exact absurd (same.symm.trans carries) (still promise).1
    · intro key bytes j _ promise
      exact safe.keeps.same key bytes j (still promise).2
    · intro key bytes promise
      rcases safe.keeps.split h.1 (still promise).2 with ⟨same, -⟩ | rest
      · exact absurd (same.symm.trans (safe.keys h member)) (still promise).1
      · exact .inr rest
    · intro dirty
      have valid := safe.keeps.valid h.1 (by simpa using dirty)
      simp [valid]

theorem Safe.bwrite (member : h ∈ held) (plain : (moves drivers ok (c.bufs h.1) && (c.bufs h.1).flags.read) = false) :
    Safe (if promised h.2 = some (c.bufs h.1).data then promised else update promised h.2 none)
      (bwrite drivers ok c h.1).1 (held.erase h) := by
  have weaker (key : Key) (data : Block)
      (promise : (if promised h.2 = some (c.bufs h.1).data then promised else update promised h.2 none) key =
        some data) :
      promised key = some data := by
    split at promise
    · exact promise
    · rcases update_cases promise with ⟨-, ⟨⟩⟩ | ⟨-, promise⟩
      exact promise
  cases moved : moves drivers ok (c.bufs h.1) with
  | true =>
    rw [moved, Bool.true_and] at plain
    have landed := bwrite_landed moved plain
    apply safe.released member (bwrite_released drivers ok c h.1)
    · intro j other dirty
      rwa [landed.others j other] at dirty
    · apply safe.keeps.landed landed _ weaker
      intro data promise
      rw [safe.keys h member] at promise
      split at promise
      next same => exact Option.some.inj (promise.symm.trans same)
      · rw [update_self] at promise
        cases promise
  | false =>
    have failed : (Io.bwrite drivers ok c h.1).1 =
        brelse (c.mark h.1 fun f => { f with write := false, done := true, error := true }) h.1 := by
      rw [bwrite_eq, moved]
      simp [Cache.after]
    apply safe.released member (bwrite_released drivers ok c h.1)
    · intro j other dirty
      rw [failed] at dirty
      simpa [brelse, other] using dirty
    · rw [failed]
      have marked := (safe.keeps.marked h.1 (fun f => { f with write := false, done := true, error := true }) rfl
        rfl).released h.1
      exact ⟨fun key data i promise => marked.same key data i (weaker key data promise),
        fun key data promise => marked.kept key data (weaker key data promise), marked.valid⟩

theorem Safe.bdwrite (member : h ∈ held) :
    Safe (update promised h.2 (some (c.bufs h.1).data)) (bdwrite c h.1) (held.erase h) := by
  obtain ⟨chains, tabled, heldIn, dirtyIn⟩ := safe.table
  have carries := safe.keys h member
  have self : (Io.bdwrite c h.1).bufs h.1 =
      { c.bufs h.1 with flags := { (c.bufs h.1).flags with delwri := true, valid := true, busy := false } } := by
    simp [Io.bdwrite, brelse]
  have others (j : Fin n) (other : j ≠ h.1) : (Io.bdwrite c h.1).bufs j = c.bufs j := by
    simp [Io.bdwrite, brelse, other]
  apply safe.released member (bdwrite_released c h.1)
  · intro j other dirty
    rwa [others j other] at dirty
  · apply safe.keeps.change h.1 others
    · intro key data promise same _
      rw [self] at same ⊢
      have here : key = h.2 := same.symm.trans carries
      rw [here, update_self] at promise
      exact Option.some.inj promise
    · intro key data j other promise same dirty
      have apart : key ≠ h.2 := by
        rintro rfl
        -- The block has one buffer only.
        have first := dirtyIn j dirty
        rw [same] at first
        exact other (tabled.unique _ j h.1 first (heldIn h member) (same.trans carries.symm))
      rw [update_of_ne apart] at promise
      exact safe.keeps.same key data j promise same dirty
    · intro key data promise
      rcases update_cases promise with ⟨here, -⟩ | ⟨here, promise⟩
      · rw [self]
        exact .inl ⟨carries.trans here.symm, rfl⟩
      · rcases safe.keeps.split h.1 promise with ⟨same, -⟩ | rest
        · exact absurd (same.symm.trans carries) here
        · exact .inr rest
    · intro _
      rw [self]

end

theorem Safe.step {t t' : Tracked n} {op : Op n} (safe : Safe t.promised t.state.cache t.state.held)
    (loses : losesNothing drivers t.state op = true) (made : trackedStep drivers t op = some t') :
    Safe t'.promised t'.state.cache t'.state.held := by
  obtain ⟨s', stepped, rfl⟩ := Option.map_eq_some_iff.mp made
  unfold Io.step at stepped
  split at stepped
  · exact State.got_elim stepped fun _ _ returned => safe.getblk loses returned
  · exact State.got_elim stepped fun _ _ returned => safe.bread loses returned
  · split at stepped <;> cases stepped
    next member => exact safe.fill member
  · split at stepped <;> cases stepped
    next member => exact safe.bwrite member ((Bool.not_eq_true' _).mp loses)
  · split at stepped <;> cases stepped
    next member => exact safe.bdwrite member
  · split at stepped <;> cases stepped
    next h member =>
      exact safe.released member (brelse_released _ _) (fun j other dirty => by simpa [brelse, other] using dirty)
        (safe.keeps.released h.1)

end Safe

/-- In every run in which write-backs take place as writes and no held buffer is evicted, the bytes of a
delayed write are in a dirty buffer or on the device. -/
theorem delayed_writes_kept (n : Nat) (drivers : BitVec 8 → Bool) (t : Tracked n)
    (reached : Run.Reach (trackedStep drivers) (fun t op => losesNothing drivers t.state op = true) TrackedStart t) :
    NothingLost t := by
  have safe : Safe t.promised t.state.cache t.state.held := by
    apply reached.invariant
    · rintro ⟨s, promised⟩ ⟨⟨slab, disk, rfl⟩, rfl⟩
      exact ⟨⟨_, tabled_init slab disk, nofun, nofun⟩, nofun, nofun, List.nodup_nil, ⟨nofun, nofun, nofun⟩⟩
    · intro t op t' safe loses made
      exact safe.step loses made
  intro key data promise
  rcases safe.keeps.kept key data promise with ⟨i, carries, dirty⟩ | stored
  · exact .inl ⟨i, carries, dirty, safe.keeps.same key data i promise carries dirty⟩
  · exact .inr stored

section Examples

def trackedBlank : Tracked 64 := ⟨blankCache, fun _ => none⟩

theorem trackedBlank_start : TrackedStart trackedBlank := ⟨blankCache_started, rfl⟩

-- Block 0 is left for a delayed write and becomes the next victim.
def delayedRun : List (Op 64) :=
  .getblk (bram 0) true :: .fill (0, bram 0) oneBlock true :: .bdwrite (0, bram 0) :: fetchOthers

-- The promise for a block begins with a one.
def promisesOne (t : Tracked n) (key : Key) : Bool := (t.promised key).any fun data => data[0]? == some 1#8

theorem delayed_writes_kept_evicted : ∃ t : Tracked 64,
    Run.Reach (trackedStep fun _ => true) (fun t op => losesNothing (fun _ => true) t.state op = true) TrackedStart t ∧
    promisesOne t (bram 0) = true ∧ (t.state.cache.bufs 0).key = bram 64 ∧ NothingLost t := by
  obtain ⟨t, reached, ⟨promises, key⟩, kept⟩ := Run.Reach.found_with
    (P := fun t => promisesOne t (bram 0) = true ∧ (t.state.cache.bufs 0).key = bram 64)
    (delayed_writes_kept 64 fun _ => true)
    (delayedRun ++ [.getblk (bram 64) true]) trackedBlank_start (by decide +kernel)
  exact ⟨t, reached, promises, key, kept⟩

/-- The write-back of a victim fails and getblk returns the buffer all the same: the bytes are gone. -/
theorem failed_write_back_loses_block : ∃ t : Tracked 64,
    Run.Reach (trackedStep fun _ => true) (fun _ _ => True) TrackedStart t ∧ (0, bram 64) ∈ t.state.held ∧
      ¬ NothingLost t := by
  obtain ⟨t, reached, promises, holds, clean, zero⟩ : ∃ t : Tracked 64,
      Run.Reach (trackedStep fun _ => true) (fun _ _ => True) TrackedStart t ∧ promisesOne t (bram 0) = true ∧
      (0, bram 64) ∈ t.state.held ∧ (∀ i, (t.state.cache.bufs i).flags.delwri = false) ∧
        (t.state.cache.disk (bram 0))[0] = 0#8 :=
    Run.Reach.found (delayedRun ++ [.getblk (bram 64) false]) trackedBlank_start (by decide +kernel)
  refine ⟨t, reached, holds, fun nothingLost => ?_⟩
  cases promise : t.promised (bram 0) with
  | none => simp [promisesOne, promise] at promises
  | some data =>
    have one : data[0] = 1#8 := by simpa [promisesOne, promise] using promises
    rcases nothingLost (bram 0) data promise with ⟨i, -, dirty, -⟩ | stored
    · rw [clean i] at dirty
      cases dirty
    · rw [stored, one] at zero
      cases zero

end Examples

end Kappara.Io
