import Kappara.Io.Calls
import Kappara.Lib.Run

/-! Callers of the buffer cache, and the shape of its lists between their calls.

A caller holds the buffers it got and releases only those. The lists keep their
shape as long as no dirty buffer is evicted: the write-back of a victim ends in
brelse, which puts it on the LRU list again, and evict_one then marks it busy. -/

set_option autoImplicit false

namespace Kappara.Io

open Links
open Function (update update_of_ne update_self)

variable {n : Nat}

/-- A buffer somebody holds, with the block it was asked for. -/
abbrev Handle (n : Nat) := Fin n × Key

structure State (n : Nat) where
  cache : Cache n
  held : List (Handle n)

/-- A call, with the outcomes of the strategy calls it may make. A holder may also store into its buffer
and set B_VALID. -/
inductive Op (n : Nat) where
  | getblk (key : Key) (wb : Bool)
  | bread (key : Key) (wb ok : Bool)
  | fill (h : Handle n) (data : Block) (valid : Bool)
  | bwrite (h : Handle n) (ok : Bool)
  | bdwrite (h : Handle n)
  | brelse (h : Handle n)
  deriving DecidableEq

def State.got (s : State n) (key : Key) : Option (Cache n × Option (Fin n)) → Option (State n)
  | none => none
  | some (c, none) => some ⟨c, s.held⟩
  | some (c, some i) => some ⟨c, (i, key) :: s.held⟩

theorem State.got_elim {P : Cache n → List (Handle n) → Prop} {s s' : State n} {key : Key}
    {r : Option (Cache n × Option (Fin n))} (made : s.got key r = some s')
    (each : ∀ c' got, r = some (c', got) → (got = none → P c' s.held) ∧ ∀ i, got = some i → P c' ((i, key) :: s.held)) :
    P s'.cache s'.held := by
  unfold State.got at made
  split at made <;> cases made
  · exact (each _ _ rfl).1 rfl
  · exact (each _ _ rfl).2 _ rfl

def step (drivers : BitVec 8 → Bool) (s : State n) : Op n → Option (State n)
  | .getblk key wb => s.got key (getblk drivers wb s.cache key)
  | .bread key wb ok => s.got key (bread drivers wb ok s.cache key)
  | .fill h data valid =>
    if h ∈ s.held then some ⟨(s.cache.fill h.1 data).mark h.1 fun f => { f with valid := valid || f.valid },
      s.held⟩ else none
  | .bwrite h ok => if h ∈ s.held then some ⟨(bwrite drivers ok s.cache h.1).1, s.held.erase h⟩ else none
  | .bdwrite h => if h ∈ s.held then some ⟨bdwrite s.cache h.1, s.held.erase h⟩ else none
  | .brelse h => if h ∈ s.held then some ⟨brelse s.cache h.1, s.held.erase h⟩ else none

def Started (s : State n) : Prop := ∃ slab disk, s = ⟨bufInit slab disk, []⟩

structure WellListed (c : Cache n) : Prop where
  lru : ∃ l, Path c.lru.next c.lru.head l none ∧ Path c.lru.prev c.lru.tail l.reverse none ∧
    ∀ i, l.count i = if (c.bufs i).flags.busy then 0 else 1
  single : ∀ i j, (c.bufs i).dev ≠ noDev → (c.bufs i).key = (c.bufs j).key → i = j
  chains : ∃ chains : BitVec 4 → List (Fin n), (∀ h, Path c.hashNext (c.buckets h) (chains h) none) ∧
    ∀ i, (c.bufs i).dev ≠ noDev → ∀ h, (chains h).count i = if h = bufHashIdx (c.bufs i).key then 1 else 0

/-- A miss would evict a clean buffer, and one that hash_remove takes out of its chain. -/
def cleanVictim (c : Cache n) (key : Key) : Bool :=
  match hashLookup c key, c.lru.head with
  | some none, some i =>
    !(c.bufs i).flags.delwri && !((c.bufs i).dev == noDev && hashLookup c (c.bufs i).key == some (some i))
  | _, _ => true

def evictsClean (s : State n) : Op n → Bool
  | .getblk key _ => cleanVictim s.cache key
  | .bread key _ _ => cleanVictim s.cache key
  | _ => true

section Lru

variable {q : Queue (Fin n)} {busy : Fin n → Bool} {i : Fin n}

-- The LRU list holds the buffers that are not busy.
def Orderly (q : Queue (Fin n)) (busy : Fin n → Bool) : Prop := ∃ l, q.Lists l ∧ ∀ i, i ∈ l ↔ busy i = false

theorem Orderly.take (orderly : Orderly q busy) (free : busy i = false) :
    Orderly (q.unlink i) (update busy i true) := by
  obtain ⟨l, lists, members⟩ := orderly
  obtain ⟨before, after, rfl⟩ := List.append_of_mem ((members i).mpr free)
  refine ⟨before ++ after, lists.unlink, fun j => ?_⟩
  have once := lists.once
  rw [List.nodup_append, List.nodup_cons] at once
  by_cases same : j = i
  · subst same
    rw [update_self]
    refine ⟨fun member => ?_, fun impossible => nomatch impossible⟩
    rcases List.mem_append.mp member with front | rear
    · exact absurd rfl (once.2.2 j front j List.mem_cons_self)
    · exact absurd rear once.2.1.1
  · rw [update_of_ne same, ← members j]
    simp [same]

theorem Orderly.release (orderly : Orderly q busy) (held : busy i = true) :
    Orderly (q.insertTail i) (update busy i false) := by
  obtain ⟨l, lists, members⟩ := orderly
  have absent : i ∉ l := fun member => by simp [(members i).mp member] at held
  refine ⟨l ++ [i], lists.insertTail absent, fun j => ?_⟩
  by_cases same : j = i
  · subst same
    simp
  · rw [update_of_ne same, ← members j]
    simp [same]

theorem orderly_init : Orderly ((List.finRange n).foldl Queue.insertTail ⟨none, none, fun _ => none, fun _ => none⟩)
    (fun _ => false) := by
  -- The loop of buf_init appends the slots one by one.
  have appended (slots l : List (Fin n)) (q : Queue (Fin n)) (lists : q.Lists l) (once : (l ++ slots).Nodup) :
      (slots.foldl Queue.insertTail q).Lists (l ++ slots) := by
    induction slots generalizing l q with
    | nil =>
      rw [List.append_nil]
      exact lists
    | cons i rest ih =>
      have absent : i ∉ l := fun member => (List.nodup_append.mp once).2.2 i member i List.mem_cons_self rfl
      have next := ih (l ++ [i]) (q.insertTail i) (lists.insertTail absent)
      rw [List.append_assoc] at next
      exact next once
  refine ⟨_, appended (List.finRange n) [] _ ⟨rfl, rfl, List.nodup_nil⟩ (List.nodup_finRange n), ?_⟩
  simp

end Lru

section Effects

variable {drivers : BitVec 8 → Bool} {ok wb : Bool} {c c' : Cache n} {i : Fin n} {key : Key}

def Cache.busy (c : Cache n) : Fin n → Bool := fun i => (c.bufs i).flags.busy

theorem mark_busy (c : Cache n) (i : Fin n) (f : Flags → Flags) :
    (c.mark i f).busy = update c.busy i (f (c.bufs i).flags).busy := by
  funext j
  by_cases same : j = i
  · subst same
    simp [Cache.busy]
  · simp [Cache.busy, same]

-- The lists and the busy flags are the same.
structure SameLists (c c' : Cache n) : Prop where
  lru : c'.lru = c.lru
  busy : c'.busy = c.busy
  table : SameTable c c'

-- A buffer is put back.
structure Released (c c' : Cache n) (i : Fin n) : Prop where
  lru : c'.lru = c.lru.insertTail i
  busy : c'.busy = update c.busy i false
  table : SameTable c c'

theorem SameLists.trans {c'' : Cache n} (first : SameLists c c') (second : SameLists c' c'') : SameLists c c'' :=
  ⟨second.lru.trans first.lru, second.busy.trans first.busy, first.table.trans second.table⟩

theorem mark_lists (c : Cache n) (i : Fin n) (f : Flags → Flags)
    (same : (f (c.bufs i).flags).busy = (c.bufs i).flags.busy) : SameLists c (c.mark i f) := by
  refine ⟨rfl, ?_, mark_table c i f⟩
  rw [mark_busy, same]
  exact Function.update_eq_self i c.busy

theorem fill_lists (c : Cache n) (i : Fin n) (data : Block) : SameLists c (c.fill i data) := by
  refine ⟨rfl, ?_, fill_table c i data⟩
  funext j
  by_cases same : j = i
  · subst same
    simp [Cache.busy]
  · simp [Cache.busy, same]

theorem after_lists (c : Cache n) (moved : Bool) (i : Fin n) : SameLists c (c.after moved i) := by
  unfold Cache.after Cache.transfer
  split
  · split
    · exact fill_lists c i _
    · exact ⟨rfl, rfl, rfl, rfl, fun _ => rfl⟩
  · exact ⟨rfl, rfl, .refl c⟩

theorem brelse_released (c : Cache n) (i : Fin n) : Released c (brelse c i) i :=
  ⟨rfl, mark_busy c i fun f => { f with busy := false }, brelse_table c i⟩

theorem Released.before (lists : SameLists c c') {c'' : Cache n} (released : Released c' c'' i) : Released c c'' i where
  lru := lists.lru ▸ released.lru
  busy := lists.busy ▸ released.busy
  table := lists.table.trans released.table

theorem bwrite_released (drivers : BitVec 8 → Bool) (ok : Bool) (c : Cache n) (i : Fin n) :
    Released c (bwrite drivers ok c i).1 i := by
  rw [bwrite_eq]
  exact (brelse_released _ i).before ((after_lists c _ i).trans (mark_lists _ i _ rfl))

theorem bdwrite_released (c : Cache n) (i : Fin n) : Released c (bdwrite c i) i :=
  (brelse_released _ i).before (mark_lists c i _ rfl)

end Effects

section Shape

variable {drivers : BitVec 8 → Bool} {ok wb : Bool} {c c' : Cache n} {i : Fin n} {key : Key} {held : List (Handle n)}
  {h : Handle n}

-- The invariant between calls: the lists, and that exactly the held buffers may be released.
structure Listed (c : Cache n) (held : List (Handle n)) : Prop where
  lru : Orderly c.lru c.busy
  table : ∃ chains, Tabled c chains
  once : (held.map Prod.fst).Nodup
  busy : ∀ h ∈ held, c.busy h.1 = true

theorem Listed.lists (listed : Listed c held) (same : SameLists c c') : Listed c' held where
  lru := by
    rw [same.lru, same.busy]
    exact listed.lru
  table := listed.table.imp fun _ tabled => tabled.same same.table
  once := listed.once
  busy h member := by
    rw [same.busy]
    exact listed.busy h member

theorem held_erase {g : Handle n} (once : (held.map Prod.fst).Nodup) (member : h ∈ held) (other : g ∈ held.erase h) :
    g ∈ held ∧ g.1 ≠ h.1 := by
  obtain ⟨differs, old⟩ := (List.Nodup.mem_erase_iff (List.Nodup.of_map Prod.fst once)).mp other
  exact ⟨old, fun same => differs (List.inj_on_of_nodup_map once old member same)⟩

theorem Listed.released (listed : Listed c held) (member : h ∈ held) (released : Released c c' h.1) :
    Listed c' (held.erase h) where
  lru := by
    rw [released.lru, released.busy]
    exact listed.lru.release (listed.busy h member)
  table := listed.table.imp fun _ tabled => tabled.same released.table
  once := listed.once.sublist ((List.erase_sublist).map Prod.fst)
  busy g other := by
    obtain ⟨old, apart⟩ := held_erase listed.once member other
    rw [released.busy, update_of_ne apart]
    exact listed.busy g old

section

variable {busy : Fin n → Bool} (key : Key) (free : busy i = false) (all : ∀ h ∈ held, busy h.1 = true)
include free all

theorem held_cons (once : (held.map Prod.fst).Nodup) : (((i, key) :: held).map Prod.fst).Nodup := by
  rw [List.map_cons, List.nodup_cons]
  refine ⟨fun member => ?_, once⟩
  obtain ⟨h, inside, same⟩ := List.mem_map.mp member
  have held := all h inside
  rw [same, free] at held
  cases held

theorem busy_cons : ∀ h ∈ (i, key) :: held, update busy i true h.1 = true := by
  intro h member
  rcases List.mem_cons.mp member with rfl | inside
  · exact update_self i true busy
  · have held := all h inside
    rw [update_of_ne fun same => by rw [same, free] at held; cases held]
    exact held

end

theorem Listed.taken (listed : Listed c held) (free : c.busy i = false) (lru : c'.lru = c.lru.unlink i)
    (busy : c'.busy = update c.busy i true) (table : ∃ chains, Tabled c' chains) (key : Key) :
    Listed c' ((i, key) :: held) := by
  refine ⟨?_, table, held_cons key free listed.busy listed.once, fun h member => ?_⟩
  · rw [lru, busy]
    exact listed.lru.take free
  · rw [busy]
    exact busy_cons key free listed.busy h member

theorem Orderly.head_free {q : Queue (Fin n)} {busy : Fin n → Bool} (orderly : Orderly q busy)
    (head : q.head = some i) : busy i = false := by
  obtain ⟨l, lists, members⟩ := orderly
  refine (members i).mp ?_
  rw [lists.forward.head] at head
  exact List.mem_of_head? head

theorem assign_busy (c : Cache n) (i : Fin n) (key : Key) :
    (hashInsert (c.assign i key) i).busy = update c.busy i true := by
  funext j
  by_cases same : j = i
  · subst same
    simp [Cache.busy, hashInsert, Cache.assign]
  · simp [Cache.busy, hashInsert, Cache.assign, same]

theorem Listed.getblk {got : Option (Fin n)} (listed : Listed c held) (clean : cleanVictim c key = true)
    (returned : getblk drivers wb c key = some (c', got)) :
    (got = none → Listed c' held) ∧ ∀ i, got = some i → Listed c' ((i, key) :: held) := by
  obtain ⟨chains, tabled⟩ := listed.table
  cases getblk_got returned with
  | full => exact ⟨fun _ => listed, nofun⟩
  | @hit i found free =>
    refine ⟨nofun, fun _ same => ?_⟩
    cases same
    refine listed.taken free rfl (mark_busy _ i _) ⟨chains, tabled.same ?_⟩ key
    exact (unlink_table c i).trans (mark_table _ i _)
  | @evicted i c₂ missing head removed =>
    refine ⟨nofun, fun _ same => ?_⟩
    cases same
    rw [cleanVictim, missing, head] at clean
    simp only [Bool.and_eq_true, Bool.not_eq_true', Bool.and_eq_false_iff, beq_eq_false_iff_ne] at clean
    obtain ⟨⟨bufs, lru, -⟩, chains', new, -⟩ :=
      tabled.evicted missing (tabled.unlinked clean.2) (writeBack_table drivers wb c i) removed
    rw [writeBack, clean.1, if_neg nofun] at bufs lru
    refine listed.taken (listed.lru.head_free head) ?_ ?_ ⟨chains', new⟩ key
    · exact lru
    · have same : c₂.busy = c.busy := funext fun j => congrArg (·.flags.busy) (congrFun bufs j)
      rw [assign_busy, same]

theorem Listed.bread {got : Option (Fin n)} (listed : Listed c held) (clean : cleanVictim c key = true)
    (returned : bread drivers wb ok c key = some (c', got)) :
    (got = none → Listed c' held) ∧ ∀ i, got = some i → Listed c' ((i, key) :: held) := by
  cases bread_fetched returned with
  | full made | cached made => exact listed.getblk clean made
  | @transferred c₁ i made =>
    refine ⟨nofun, fun _ same => ?_⟩
    cases same
    have taken := (listed.getblk clean made).2 i rfl
    exact taken.lists ((fill_lists c₁ i _).trans (mark_lists _ i _ rfl))
  | @failed c₁ i made =>
    refine ⟨fun _ => ?_, nofun⟩
    have taken := (listed.getblk clean made).2 i rfl
    have marked := mark_lists c₁ i (fun f => { f with read := true, done := true, error := true }) rfl
    have released := taken.released List.mem_cons_self ((brelse_released _ i).before marked)
    rwa [List.erase_cons_head] at released

theorem Listed.step {s s' : State n} {op : Op n} (listed : Listed s.cache s.held) (clean : evictsClean s op = true)
    (made : step drivers s op = some s') : Listed s'.cache s'.held := by
  unfold Io.step at made
  split at made
  · exact State.got_elim made fun _ _ returned => listed.getblk clean returned
  · exact State.got_elim made fun _ _ returned => listed.bread clean returned
  · split at made <;> cases made
    dsimp only
    exact listed.lists ((fill_lists _ _ _).trans (mark_lists _ _ _ rfl))
  · split at made <;> cases made
    next member => exact listed.released member (bwrite_released drivers _ _ _)
  · split at made <;> cases made
    next member => exact listed.released member (bdwrite_released _ _)
  · split at made <;> cases made
    next member => exact listed.released member (brelse_released _ _)

theorem Listed.wellListed (listed : Listed c held) : WellListed c := by
  obtain ⟨l, lists, members⟩ := listed.lru
  obtain ⟨chains, tabled⟩ := listed.table
  refine ⟨⟨l, lists.forward, lists.backward, fun i => ?_⟩, fun i j used same => tabled.single used same,
    chains, tabled.chained.path, fun i used h => ?_⟩
  · rw [List.Nodup.count lists.once, if_congr (members i) rfl rfl]
    cases busy : (c.bufs i).flags.busy <;> simp [Cache.busy, busy]
  · rw [List.Nodup.count (tabled.chained.once h)]
    apply if_congr _ rfl rfl
    constructor
    · intro member
      exact (tabled.home h i member).symm
    · rintro rfl
      exact tabled.carried i used

theorem listed_init (slab : Fin n → Block) (disk : Key → Block) : Listed (bufInit slab disk) [] where
  lru := orderly_init
  table := ⟨_, tabled_init slab disk⟩
  once := List.nodup_nil
  busy _ impossible := nomatch impossible

end Shape

/-- In every run in which no dirty buffer is evicted, the lists have their shape between any two calls. -/
theorem lists_when_victims_clean (n : Nat) (drivers : BitVec 8 → Bool) (s : State n)
    (reached : Run.Reach (step drivers) (fun s op => evictsClean s op = true) Started s) : WellListed s.cache := by
  have listed : Listed s.cache s.held := by
    apply reached.invariant
    · rintro s ⟨slab, disk, rfl⟩
      exact listed_init slab disk
    · intro s op s' listed clean made
      exact listed.step clean made
  exact listed.wellListed

section Examples

def zeroBlock : Block := Vector.replicate 512 0#8

def oneBlock : Block := Vector.replicate 512 1#8

-- Block k of the test disk, which is minor 0 of major 1.
def bram (k : Nat) : Key := (0x01000000#32, BitVec.ofNat 64 k)

-- A full pool in front of devices that hold zeros.
def blankCache : State 64 := ⟨bufInit (fun _ => zeroBlock) (fun _ => zeroBlock), []⟩

theorem blankCache_started : Started blankCache := ⟨_, _, rfl⟩

-- The blocks 1 to 63 of the test disk are fetched and released one after the other.
def fetchOthers : List (Op 64) :=
  ((List.finRange 64).drop 1).flatMap fun i => [.getblk (bram i.val) true, .brelse (i, bram i.val)]

def dirtyRun : List (Op 64) := .getblk (bram 0) true :: .bdwrite (0, bram 0) :: fetchOthers

theorem lists_when_victims_clean_dirty :
    ∃ s : State 64, Run.Reach (step fun _ => true) (fun s op => evictsClean s op = true) Started s ∧
    (s.cache.bufs 0).flags.delwri = true ∧ WellListed s.cache := by
  apply Run.Reach.found_with (lists_when_victims_clean 64 _) dirtyRun blankCache_started
  decide +kernel

/-- After the eviction of a dirty buffer, the buffer is busy and on the LRU list. -/
theorem evicted_dirty_buffer_listed : ∃ s : State 64, Run.Reach (step fun _ => true) (fun _ _ => True) Started s ∧
    ¬ WellListed s.cache := by
  obtain ⟨s, reached, busy, last⟩ : ∃ s : State 64, Run.Reach (step fun _ => true) (fun _ _ => True) Started s ∧
      (s.cache.bufs 0).flags.busy = true ∧ s.cache.lru.tail = some 0 :=
    Run.Reach.found (dirtyRun ++ [.getblk (bram 64) true]) blankCache_started (by decide +kernel)
  refine ⟨s, reached, fun listed => ?_⟩
  obtain ⟨l, -, backward, counts⟩ := listed.lru
  have absent := counts 0
  rw [busy, if_pos rfl, List.count_eq_zero] at absent
  rw [last] at backward
  exact absent (List.mem_reverse.mp (List.mem_of_head? backward.head.symm))

end Examples

end Kappara.Io
