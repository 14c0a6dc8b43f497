import Kappara.Io.Buf

/-! What the calls of the buffer cache do: to one buffer and its block, to the
hash table, and to the LRU list. -/

set_option autoImplicit false

namespace Kappara.Io

open Links
open Cache (assign fill mark)

variable {n : Nat} {drivers : BitVec 8 → Bool} {ok wb : Bool} {c c' : Cache n} {i j : Fin n} {key : Key}

section Fields

variable (c : Cache n) (i : Fin n) (f g : Flags → Flags) (data : Block) (key : Key)

@[simp] theorem mark_self : (c.mark i f).bufs i = { c.bufs i with flags := f (c.bufs i).flags } := by simp [mark]

@[simp] theorem fill_self : (c.fill i data).bufs i = { c.bufs i with data := data } := by simp [fill]

@[simp] theorem mark_of_ne (other : j ≠ i) : (c.mark i f).bufs j = c.bufs j := by simp [mark, other]

@[simp] theorem fill_of_ne (other : j ≠ i) : (c.fill i data).bufs j = c.bufs j := by simp [fill, other]

@[simp] theorem mark_mark : (c.mark i f).mark i g = c.mark i fun flags => g (f flags) := by simp [mark]

@[simp] theorem mark_assign : (c.mark i f).assign i key = c.assign i key := by simp [mark, assign]

theorem fill_mark : (c.mark i f).fill i data = (c.fill i data).mark i f := by simp [mark, fill]

theorem mark_key : ((c.mark i f).bufs j).key = (c.bufs j).key := by
  by_cases same : j = i
  · subst same
    simp [Buf.key]
  · simp [same]

theorem fill_key : ((c.fill i data).bufs j).key = (c.bufs j).key := by
  by_cases same : j = i
  · subst same
    simp [Buf.key]
  · simp [same]

end Fields

section Transfer

def Cache.transfer (c : Cache n) (i : Fin n) : Cache n :=
  if (c.bufs i).flags.read then c.fill i (c.disk (c.bufs i).key)
  else { c with disk := Function.update c.disk (c.bufs i).key (c.bufs i).data }

def moves (drivers : BitVec 8 → Bool) (ok : Bool) (b : Buf) : Bool := bdevLookup drivers (major b.dev) && ok

def Cache.after (c : Cache n) (moved : Bool) (i : Fin n) : Cache n := if moved then c.transfer i else c

open Cache (after transfer)

theorem transfer_mark (c : Cache n) (i : Fin n) (f : Flags → Flags)
    (same : (f (c.bufs i).flags).read = (c.bufs i).flags.read) : (c.mark i f).transfer i = (c.transfer i).mark i f := by
  unfold transfer
  rw [mark_self]
  simp only [same]
  split
  · exact fill_mark c i f _
  · rfl

theorem after_mark (c : Cache n) (moved : Bool) (i : Fin n) (f : Flags → Flags)
    (same : (f (c.bufs i).flags).read = (c.bufs i).flags.read) :
    (c.mark i f).after moved i = (c.after moved i).mark i f := by
  unfold after
  split
  · exact transfer_mark c i f same
  · rfl

@[simp] theorem transfer_flags : ((c.transfer i).bufs j).flags = (c.bufs j).flags := by
  unfold transfer
  split
  · by_cases same : j = i
    · subst same
      simp
    · simp [same]
  · rfl

theorem dStrategy_true (c : Cache n) (i : Fin n) : dStrategy true c i = biodone (c.transfer i) i := by
  unfold dStrategy transfer
  simp only [if_true]
  split <;> rfl

section

variable (drivers : BitVec 8 → Bool) (ok : Bool) (c : Cache n) (i : Fin n)

theorem strategyAndWait_eq :
    strategyAndWait drivers ok c i =
      ((c.after (moves drivers ok (c.bufs i)) i).mark i fun f =>
        { f with done := true, error := !moves drivers ok (c.bufs i) }, moves drivers ok (c.bufs i)) := by
  unfold strategyAndWait moves
  cases bdevLookup drivers (major (c.bufs i).dev) with
  | false => simp [after]
  | true =>
    cases ok with
    | false => simp [after, dStrategy, biodone]
    | true =>
      simp only [dStrategy_true, after]
      rw [transfer_mark c i (fun f => { f with done := false, error := false }) rfl]
      simp [biodone]

theorem bwrite_eq : bwrite drivers ok c i =
      (brelse ((c.after (moves drivers ok (c.bufs i)) i).mark i fun f => { f with
        write := false, done := true, error := !moves drivers ok (c.bufs i),
        valid := moves drivers ok (c.bufs i) || f.valid, delwri := !moves drivers ok (c.bufs i) && f.delwri }) i,
        moves drivers ok (c.bufs i)) := by
  have written : moves drivers ok ((c.mark i fun f => { f with write := true }).bufs i) =
      moves drivers ok (c.bufs i) := by
    simp [moves]
  unfold bwrite
  rw [strategyAndWait_eq, written, after_mark c _ i (fun f => { f with write := true }) rfl]
  cases moves drivers ok (c.bufs i) <;> simp

end

-- The block of a buffer is on the device, and nothing else has changed but flags of the buffer.
structure Landed (c c' : Cache n) (i : Fin n) : Prop where
  disk : c'.disk = Function.update c.disk (c.bufs i).key (c.bufs i).data
  others : ∀ j, j ≠ i → c'.bufs j = c.bufs j
  key : (c'.bufs i).key = (c.bufs i).key
  data : (c'.bufs i).data = (c.bufs i).data
  valid : (c'.bufs i).flags.valid = true
  delwri : (c'.bufs i).flags.delwri = false

theorem bwrite_landed (moved : moves drivers ok (c.bufs i) = true) (plain : (c.bufs i).flags.read = false) :
    Landed c (bwrite drivers ok c i).1 i := by
  rw [bwrite_eq, moved]
  simp only [after, transfer, plain, brelse]
  constructor
  · rfl
  · intro j other
    simp [other]
  all_goals simp [Buf.key]

end Transfer

section Table

structure SameTable (c c' : Cache n) : Prop where
  buckets : c'.buckets = c.buckets
  hashNext : c'.hashNext = c.hashNext
  keys : ∀ j, (c'.bufs j).key = (c.bufs j).key

theorem SameTable.refl (c : Cache n) : SameTable c c := ⟨rfl, rfl, fun _ => rfl⟩

theorem SameTable.trans {c'' : Cache n} (first : SameTable c c') (second : SameTable c' c'') : SameTable c c'' :=
  ⟨second.buckets.trans first.buckets, second.hashNext.trans first.hashNext,
    fun j => (second.keys j).trans (first.keys j)⟩

theorem SameTable.dev (same : SameTable c c') (j : Fin n) : (c'.bufs j).dev = (c.bufs j).dev :=
  congrArg Prod.fst (same.keys j)

section

variable (c : Cache n) (i : Fin n)

theorem mark_table (f : Flags → Flags) : SameTable c (c.mark i f) :=
  ⟨rfl, rfl, fun _ => mark_key c i f⟩

theorem fill_table (data : Block) : SameTable c (c.fill i data) :=
  ⟨rfl, rfl, fun _ => fill_key c i data⟩

theorem unlink_table : SameTable c { c with lru := c.lru.unlink i } := ⟨rfl, rfl, fun _ => rfl⟩

theorem brelse_table : SameTable c (brelse c i) :=
  ⟨rfl, rfl, (mark_table c i fun f => { f with busy := false }).keys⟩

end

theorem after_table (c : Cache n) (moved : Bool) (i : Fin n) : SameTable c (c.after moved i) := by
  unfold Cache.after Cache.transfer
  split
  · split
    · exact fill_table c i _
    · exact ⟨rfl, rfl, fun _ => rfl⟩
  · exact .refl c

theorem bwrite_table (drivers : BitVec 8 → Bool) (ok : Bool) (c : Cache n) (i : Fin n) :
    SameTable c (bwrite drivers ok c i).1 := by
  rw [bwrite_eq]
  exact ((after_table c _ i).trans (mark_table _ i _)).trans (brelse_table _ i)

/-- The chains hold the buffers that carry a block, each in its bucket. -/
structure Hashed (c : Cache n) (chains : BitVec 4 → List (Fin n)) : Prop where
  chained : Chained c.buckets c.hashNext chains
  home : ∀ h i, i ∈ chains h → bufHashIdx (c.bufs i).key = h
  carried : ∀ i, (c.bufs i).dev ≠ noDev → i ∈ chains (bufHashIdx (c.bufs i).key)

structure Tabled (c : Cache n) (chains : BitVec 4 → List (Fin n)) : Prop extends Hashed c chains where
  unique : ∀ h i j, i ∈ chains h → j ∈ chains h → (c.bufs i).key = (c.bufs j).key → i = j

theorem tabled_init (slab : Fin n → Block) (disk : Key → Block) : Tabled (bufInit slab disk) fun _ => [] :=
  ⟨⟨⟨fun _ => rfl, fun _ => List.nodup_nil, by simp⟩, by simp, fun _ used => absurd rfl used⟩, by simp⟩

variable {chains : BitVec 4 → List (Fin n)}

theorem Hashed.same (hashed : Hashed c chains) (same : SameTable c c') : Hashed c' chains where
  chained := by
    rw [same.buckets, same.hashNext]
    exact hashed.chained
  home h i member := by
    rw [same.keys]
    exact hashed.home h i member
  carried i used := by
    rw [same.keys]
    exact hashed.carried i (same.dev i ▸ used)

theorem Tabled.same (tabled : Tabled c chains) (same : SameTable c c') : Tabled c' chains where
  toHashed := tabled.toHashed.same same
  unique h i j first second equal := by
    rw [same.keys, same.keys] at equal
    exact tabled.unique h i j first second equal

section

variable (hashed : Hashed c chains)
include hashed

theorem Hashed.length_le (h : BitVec 4) : (chains h).length ≤ n := by
  have bound := List.Nodup.length_le_card (hashed.chained.once h)
  rwa [Fintype.card_fin] at bound

theorem Hashed.lookup (key : Key) :
    hashLookup c key = some ((chains (bufHashIdx key)).find? fun i => (c.bufs i).key == key) :=
  (hashed.chained.path _).search (by have := hashed.length_le (bufHashIdx key); omega)

theorem Hashed.lookup_some (found : hashLookup c key = some (some i)) :
    (c.bufs i).key = key ∧ i ∈ chains (bufHashIdx key) := by
  rw [hashed.lookup, Option.some.injEq] at found
  exact ⟨by simpa using List.find?_some found, List.mem_of_find?_eq_some found⟩

theorem Hashed.lookup_none (missing : hashLookup c key = some none) (h : BitVec 4)
    (member : i ∈ chains h) : (c.bufs i).key ≠ key := by
  rintro rfl
  rw [hashed.lookup, Option.some.injEq, List.find?_eq_none] at missing
  rw [← hashed.home h i member] at member
  simpa using missing i member

theorem Hashed.hashRemove (used : (c.bufs i).dev ≠ noDev) :
    ∃ c' chains', Io.hashRemove c i = some c' ∧ Chained c'.buckets c'.hashNext chains' ∧ c'.bufs = c.bufs ∧
      c'.lru = c.lru ∧ c'.disk = c.disk ∧ ∀ h j, j ∈ chains' h ↔ j ∈ chains h ∧ j ≠ i := by
  obtain ⟨next, bucket, chains', removed, chained, members⟩ :=
    hashed.chained.remove (hashed.carried i used) (show _ ≤
      n + 1 by have := hashed.length_le (bufHashIdx (c.bufs i).key); omega)
  have result : Io.hashRemove c i =
      some ⟨c.bufs, c.lru, Function.update c.buckets (bufHashIdx (c.bufs i).key) bucket, next, c.disk⟩ := by
    rw [Io.hashRemove, removed]
  exact ⟨_, chains', result, chained, rfl, rfl, rfl, members⟩

end

theorem assigned_self (c : Cache n) (i : Fin n) (key : Key) :
    (hashInsert (c.assign i key) i).bufs i = ⟨key.1, key.2, { noFlags with busy := true }, (c.bufs i).data⟩ := by
  simp [hashInsert, assign]

theorem assigned_of_ne (c : Cache n) (key : Key) (other : j ≠ i) :
    (hashInsert (c.assign i key) i).bufs j = c.bufs j := by
  simp [hashInsert, assign, other]

theorem Hashed.assigned (hashed : Hashed c chains) (key : Key) {chains' : BitVec 4 → List (Fin n)}
    (chained : Chained c'.buckets c'.hashNext chains')
    (keys : ∀ j, (c'.bufs j).key = (c.bufs j).key) (members : ∀ h j, j ∈ chains' h ↔ j ∈ chains h ∧ j ≠ i) :
    ∃ chains'', Hashed (hashInsert (c'.assign i key) i) chains'' ∧
      ∀ h j, j ∈ chains'' h ↔ (j ∈ chains h ∧ j ≠ i) ∨ h = bufHashIdx key ∧ j = i := by
  have here : ((hashInsert (c'.assign i key) i).bufs i).key = key := by rw [assigned_self, Buf.key]
  have there {j : Fin n} (other : j ≠ i) : ((hashInsert (c'.assign i key) i).bufs j).key = (c.bufs j).key := by
    rw [assigned_of_ne c' key other, keys]
  obtain ⟨chains'', inserted, all⟩ := @Chained.insert _ _ i _ _ _ _ _ chained (bufHashIdx key)
    (fun h member => ((members h i).mp member).2 rfl)
  have all (h : BitVec 4) (j : Fin n) : j ∈ chains'' h ↔ (j ∈ chains h ∧ j ≠ i) ∨ h = bufHashIdx key ∧ j = i := by
    rw [all, members]
  refine ⟨chains'', ⟨?_, ?_, ?_⟩, all⟩
  · have place : bufHashIdx ((c'.assign i key).bufs i).key = bufHashIdx key := congrArg bufHashIdx here
    rw [hashInsert, place]
    exact inserted
  · intro h j member
    rcases (all h j).mp member with ⟨old, other⟩ | ⟨rfl, rfl⟩
    · exact (congrArg bufHashIdx (there other)).trans (hashed.home h j old)
    · exact congrArg bufHashIdx here
  · intro j used
    by_cases same : j = i
    · subst same
      exact (all _ _).mpr (.inr ⟨congrArg bufHashIdx here, rfl⟩)
    · have old : (c.bufs j).dev ≠ noDev := by
        intro unused
        exact used ((congrArg Prod.fst (there same)).trans unused)
      refine (all _ _).mpr (.inl ⟨?_, same⟩)
      rw [congrArg bufHashIdx (there same)]
      exact hashed.carried j old

/-- The victim leaves the chain it may be in and goes to the one of its new block. -/
theorem Hashed.evicted {c₁ c₂ : Cache n} (hashed : Hashed c chains) (key : Key)
    (unused : (c.bufs i).dev = noDev → ∀ h, i ∉ chains h) (same : SameTable c c₁)
    (removed : (if (c.bufs i).dev = noDev then some c₁ else Io.hashRemove c₁ i) = some c₂) :
    (c₂.bufs = c₁.bufs ∧ c₂.lru = c₁.lru ∧ c₂.disk = c₁.disk) ∧
    ∃ chains', Hashed (hashInsert (c₂.assign i key) i) chains' ∧
      ∀ h j, j ∈ chains' h ↔ (j ∈ chains h ∧ j ≠ i) ∨ h = bufHashIdx key ∧ j = i := by
  split at removed
  next free =>
    cases removed
    refine ⟨⟨rfl, rfl, rfl⟩, hashed.assigned key (hashed.same same).chained same.keys fun h j => ?_⟩
    refine ⟨fun member => ⟨member, ?_⟩, fun member => member.1⟩
    rintro rfl
    exact unused free h member
  next used =>
    have used : (c₁.bufs i).dev ≠ noDev := same.dev i ▸ used
    obtain ⟨c', chains', result, chained, bufs, lru, disk, members⟩ := (hashed.same same).hashRemove used
    rw [result, Option.some.injEq] at removed
    subst removed
    refine ⟨⟨bufs, lru, disk⟩, hashed.assigned key chained (fun j => ?_) members⟩
    rw [bufs]
    exact same.keys j

theorem Tabled.evicted {c₁ c₂ : Cache n} (tabled : Tabled c chains) (missing : hashLookup c key = some none)
    (unused : (c.bufs i).dev = noDev → ∀ h, i ∉ chains h) (same : SameTable c c₁)
    (removed : (if (c.bufs i).dev = noDev then some c₁ else Io.hashRemove c₁ i) = some c₂) :
    (c₂.bufs = c₁.bufs ∧ c₂.lru = c₁.lru ∧ c₂.disk = c₁.disk) ∧
    ∃ chains', Tabled (hashInsert (c₂.assign i key) i) chains' ∧
      ∀ h j, j ∈ chains' h ↔ (j ∈ chains h ∧ j ≠ i) ∨ h = bufHashIdx key ∧ j = i := by
  obtain ⟨kept, chains', hashed, all⟩ := tabled.toHashed.evicted key unused same removed
  have here : ((hashInsert (c₂.assign i key) i).bufs i).key = key := by rw [assigned_self, Buf.key]
  have there {j : Fin n} (other : j ≠ i) : ((hashInsert (c₂.assign i key) i).bufs j).key = (c.bufs j).key := by
    rw [assigned_of_ne c₂ key other, kept.1, same.keys]
  refine ⟨kept, chains', ⟨hashed, fun h j k first second equal => ?_⟩, all⟩
  rcases (all h j).mp first with ⟨old, other⟩ | ⟨-, rfl⟩ <;> rcases (all h k).mp second with ⟨old', other'⟩ | ⟨-, rfl⟩
  · exact tabled.unique h j k old old' ((there other).symm.trans (equal.trans (there other')))
  · exact absurd ((there other).symm.trans (equal.trans here)) (tabled.lookup_none missing h old)
  · exact absurd ((there other').symm.trans (equal.symm.trans here)) (tabled.lookup_none missing h old')
  · rfl

theorem Tabled.single (tabled : Tabled c chains) (used : (c.bufs i).dev ≠ noDev)
    (same : (c.bufs i).key = (c.bufs j).key) : i = j := by
  have used' : (c.bufs j).dev ≠ noDev := fun free => used ((congrArg Prod.fst same).trans free)
  have second := tabled.carried j used'
  rw [← same] at second
  exact tabled.unique _ i j (tabled.carried i used) second same

theorem Tabled.lookup_self (tabled : Tabled c chains) {h : BitVec 4} (member : i ∈ chains h) :
    hashLookup c (c.bufs i).key = some (some i) := by
  rw [tabled.lookup, tabled.home h i member]
  cases found : (chains h).find? fun j => (c.bufs j).key == (c.bufs i).key with
  | none => simpa using List.find?_eq_none.mp found i member
  | some j =>
    have same : (c.bufs j).key = (c.bufs i).key := by simpa using List.find?_some found
    rw [tabled.unique h j i (List.mem_of_find?_eq_some found) member same]

theorem Tabled.unlinked (tabled : Tabled c chains)
    (placed : (c.bufs i).dev ≠ noDev ∨ hashLookup c (c.bufs i).key ≠ some (some i)) (none : (c.bufs i).dev = noDev)
    (h : BitVec 4) : i ∉ chains h :=
  fun member => placed.elim (· none) (· (tabled.lookup_self member))

end Table

section Getblk

theorem writeBack_table (drivers : BitVec 8 → Bool) (wb : Bool) (c : Cache n) (i : Fin n) :
    SameTable c (writeBack drivers wb c i) := by
  unfold writeBack
  split
  · exact (unlink_table c i).trans (bwrite_table drivers wb _ i)
  · exact unlink_table c i

inductive Got (drivers : BitVec 8 → Bool) (wb : Bool) (c : Cache n) (key : Key) : Cache n → Option (Fin n) → Prop where
  | hit {i : Fin n} : hashLookup c key = some (some i) → (c.bufs i).flags.busy = false →
      Got drivers wb c key ({ c with lru := c.lru.unlink i }.mark i fun f => { f with busy := true }) (some i)
  | full : hashLookup c key = some none → c.lru.head = none → Got drivers wb c key c none
  | evicted {i : Fin n} {c' : Cache n} : hashLookup c key = some none → c.lru.head = some i →
      (if (c.bufs i).dev = noDev then some (writeBack drivers wb c i) else hashRemove (writeBack drivers wb c i) i) =
        some c' →
      Got drivers wb c key (hashInsert (c'.assign i key) i) (some i)

theorem getblk_got {got : Option (Fin n)} (returned : getblk drivers wb c key = some (c', got)) :
    Got drivers wb c key c' got := by
  unfold getblk at returned
  split at returned
  · cases returned
  next i found =>
    obtain ⟨free, ⟨⟩⟩ := Option.ite_none_left_eq_some.mp returned
    exact .hit found (Bool.eq_false_iff.mpr free)
  next missing =>
    unfold evictOne at returned
    split at returned
    · cases returned
    next made =>
      split at made
      next head =>
        cases made
        cases returned
        exact .full missing head
      · split at made <;> cases made
    next made =>
      split at made
      · cases made
      next i head =>
        split at made
        · cases made
        next removed =>
          cases made
          cases returned
          rw [mark_assign]
          exact .evicted missing head removed

inductive Fetched (drivers : BitVec 8 → Bool) (wb ok : Bool) (c : Cache n) (key : Key) :
    Cache n → Option (Fin n) → Prop where
  | full {c' : Cache n} : getblk drivers wb c key = some (c', none) → Fetched drivers wb ok c key c' none
  | cached {c' : Cache n} {i : Fin n} : getblk drivers wb c key = some (c', some i) → (c'.bufs i).flags.valid = true →
      Fetched drivers wb ok c key c' (some i)
  | transferred {c' : Cache n} {i : Fin n} :
      getblk drivers wb c key = some (c', some i) → (c'.bufs i).flags.valid = false →
      moves drivers ok (c'.bufs i) = true →
      Fetched drivers wb ok c key ((c'.fill i (c'.disk (c'.bufs i).key)).mark i fun f =>
        { f with read := false, done := true, error := false, valid := true }) (some i)
  | failed {c' : Cache n} {i : Fin n} : getblk drivers wb c key = some (c', some i) → (c'.bufs i).flags.valid = false →
      moves drivers ok (c'.bufs i) = false →
      Fetched drivers wb ok c key (brelse (c'.mark i fun f => { f with read := true, done := true, error := true }) i)
        none

theorem bread_fetched {got : Option (Fin n)} (returned : bread drivers wb ok c key = some (c', got)) :
    Fetched drivers wb ok c key c' got := by
  unfold bread at returned
  split at returned
  · cases returned
  next made =>
    cases returned
    exact .full made
  next c₁ i made =>
    split at returned
    next valid =>
      cases returned
      exact .cached made valid
    next invalid =>
      have invalid := Bool.eq_false_iff.mpr invalid
      have same : moves drivers ok ((c₁.mark i fun f => { f with read := true }).bufs i) =
          moves drivers ok (c₁.bufs i) := by
        simp [moves]
      rw [strategyAndWait_eq, same] at returned
      cases moved : moves drivers ok (c₁.bufs i) with
      | true =>
        rw [moved] at returned
        simp only [Cache.after, Cache.transfer, mark_self, if_true, fill_mark, mark_mark] at returned
        obtain ⟨rfl, rfl⟩ := returned
        exact .transferred made invalid moved
      | false =>
        rw [moved] at returned
        simp only [Cache.after, mark_mark, Bool.false_eq_true, if_false]
          at returned
        obtain ⟨rfl, rfl⟩ := returned
        exact .failed made invalid moved

end Getblk

end Kappara.Io
