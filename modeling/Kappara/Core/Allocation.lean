import Kappara.Core.Kmem
import Mathlib.Algebra.Order.BigOperators.Group.List

/-! The slab allocator over whole runs: every object handed out lies in one slab
apart from the others, and the counts are those of the slabs.

What holds of one slab depends only on the words and the records of its own
objects, so a call that works in one slab leaves the others alone. -/

set_option autoImplicit false

namespace Kappara.Kmem

open Links
open Function (update update_cases update_of_ne update_self)

variable {s s' : Heap} {cache : KmemCache} {h : Slab} {c g p : Nat}

structure Shaped (cache : KmemCache) : Prop where
  aligned : 8 ∣ cache.objSize
  least : 8 ≤ cache.objSize
  asked : cache.asked ≤ cache.objSize
  some_ : 0 < cache.objsPerSlab
  fits : cache.objsPerSlab * cache.objSize ≤ 4064

def slots (g : Nat) (cache : KmemCache) : List Nat := (List.range cache.objsPerSlab).map (objAt g cache.objSize)

theorem mem_slots : p ∈ slots g cache ↔ ∃ i < cache.objsPerSlab, objAt g cache.objSize i = p := by
  simp [slots]

theorem Shaped.slot_bounds (shaped : Shaped cache) {i : Nat} (inside : i < cache.objsPerSlab) :
    slabHeaderSize + i * cache.objSize + cache.objSize ≤ 4096 := by
  have room : (i + 1) * cache.objSize ≤ cache.objsPerSlab * cache.objSize := Nat.mul_le_mul_right _ inside
  have fits := shaped.fits
  rw [Nat.succ_mul] at room
  rw [slabHeaderSize]
  omega

theorem Shaped.slabOf_slot (shaped : Shaped cache) (slot : p ∈ slots g cache) : slabOf p = g := by
  obtain ⟨i, inside, rfl⟩ := mem_slots.mp slot
  have bounds := shaped.slot_bounds inside
  have least := shaped.least
  rw [slabOf, objAt]
  omega

theorem slots_apart {q : Nat} (first : p ∈ slots g cache) (second : q ∈ slots g cache) (other : p ≠ q) :
    p + cache.objSize ≤ q ∨ q + cache.objSize ≤ p := by
  obtain ⟨i, -, rfl⟩ := mem_slots.mp first
  obtain ⟨j, -, rfl⟩ := mem_slots.mp second
  have apart {a b : Nat} (less : a < b) : objAt g cache.objSize a + cache.objSize ≤ objAt g cache.objSize b := by
    have room : (a + 1) * cache.objSize ≤ b * cache.objSize := Nat.mul_le_mul_right _ less
    rw [Nat.succ_mul] at room
    rw [objAt, objAt]
    omega
  rcases Nat.lt_trichotomy i j with less | rfl | less
  · exact .inl (apart less)
  · exact absurd rfl other
  · exact .inr (apart less)

/-- The free list is what memory says, it has free_count objects, and the objects of the slab are the
free ones and the live ones. -/
def SlabOk (mem : Nat → Option Nat) (live : Nat → Option Nat) (cache : KmemCache) (g : Nat) (h : Slab) : Prop :=
  ∃ free : List Nat, Path mem h.freelist free none ∧ free.length = h.freeCount ∧ free.Nodup ∧
    (∀ p ∈ free, p ∈ slots g cache) ∧ ∀ p ∈ slots g cache, (live p).isSome = true ↔ p ∉ free

variable {mem live : Nat → Option Nat} {head : Option Nat}

theorem SlabOk.congr {mem' live' : Nat → Option Nat} (ok : SlabOk mem live cache g h)
    (words : ∀ p ∈ slots g cache, (live p).isNone = true → mem' p = mem p)
    (records : ∀ p ∈ slots g cache, live' p = live p) : SlabOk mem' live' cache g h := by
  obtain ⟨free, path, length, nodup, inside, parts⟩ := ok
  refine ⟨free, path.congr fun p member => words p (inside p member) ?_, length, nodup, inside, fun p slot => ?_⟩
  · rw [← Option.not_isSome, Bool.not_eq_true', ← Bool.not_eq_true]
    exact fun held => (parts p (inside p member)).mp held member
  · rw [records p slot]
    exact parts p slot

theorem SlabOk.take (ok : SlabOk mem live cache g h) (room : 0 < h.freeCount) (request : Nat) :
    ∃ p, h.freelist = some p ∧ p ∈ slots g cache ∧ (live p).isNone = true ∧
      SlabOk mem (update live p (some request)) cache g { h with freelist := mem p, freeCount := h.freeCount - 1 } := by
  obtain ⟨free, path, length, nodup, inside, parts⟩ := ok
  cases free with
  | nil =>
    rw [← length] at room
    cases room
  | cons p rest =>
    have slot := inside p List.mem_cons_self
    have notLive : ¬ (live p).isSome = true := fun held => (parts p slot).mp held List.mem_cons_self
    rw [List.nodup_cons] at nodup
    refine ⟨p, path.1, slot, by simpa using notLive, rest, path.2, ?_, nodup.2,
      fun q member => inside q (List.mem_cons_of_mem p member), fun q other => ?_⟩
    · rw [← length, List.length_cons, Nat.add_sub_cancel]
    · by_cases same : q = p
      · subst same
        simp [nodup.1]
      · rw [update_of_ne same, parts q other]
        simp [same]

theorem SlabOk.give (ok : SlabOk mem live cache g h) (slot : p ∈ slots g cache) (held : (live p).isSome = true) :
    SlabOk (update mem p h.freelist) (update live p none) cache g
      { h with freelist := some p, freeCount := h.freeCount + 1 } := by
  obtain ⟨free, path, length, nodup, inside, parts⟩ := ok
  have absent := (parts p slot).mp held
  refine ⟨p :: free, ⟨rfl, ?_⟩, by rw [List.length_cons, length], List.nodup_cons.mpr ⟨absent, nodup⟩, ?_,
    fun q other => ?_⟩
  · rw [update_self]
    exact path.congr fun q member => update_of_ne (ne_of_mem_of_not_mem member absent) _ _
  · intro q member
    rcases List.mem_cons.mp member with rfl | member
    · exact slot
    · exact inside q member
  · by_cases same : q = p
    · subst same
      simp
    · rw [update_of_ne same, parts q other]
      simp [same]

/-- Threading the objects of a fresh page puts them all on the list, in their order. -/
theorem threadObjs_path {objSize n : Nat} {tail : List Nat}
    (positive : 0 < objSize) (path : Path mem head tail none) (above : ∀ q ∈ tail, ∀ i < n, q ≠ objAt g objSize i) :
    Path (threadObjs g objSize n mem head).1 (threadObjs g objSize n mem head).2
      ((List.range n).map (objAt g objSize) ++ tail) none := by
  induction n generalizing mem head tail with
  | zero => exact path
  | succ n ih =>
    rw [List.range_succ, List.map_append, List.append_assoc]
    apply ih
    · refine ⟨rfl, ?_⟩
      rw [update_self]
      exact path.congr fun q member => update_of_ne (above q member n (Nat.lt_succ_self n)) _ _
    · intro q member i less
      rcases List.mem_cons.mp member with rfl | member
      · have apart : i * objSize < n * objSize := Nat.mul_lt_mul_of_pos_right less positive
        rw [objAt, objAt]
        omega
      · exact above q member i (Nat.lt_succ_of_lt less)

theorem threadObjs_outside {objSize n a : Nat}
    (outside : ∀ i < n, a ≠ objAt g objSize i) : (threadObjs g objSize n mem head).1 a = mem a := by
  induction n generalizing mem head with
  | zero => rfl
  | succ n ih =>
    rw [threadObjs, ih fun i less => outside i (Nat.lt_succ_of_lt less)]
    exact update_of_ne (outside n (Nat.lt_succ_self n)) _ _

def Heap.freeAt (s : Heap) (g : Nat) : Nat := ((s.slab g).map (·.freeCount)).getD 0

structure Inv (s : Heap) : Prop where
  shaped : ∀ c cache, s.caches c = some cache → Shaped cache
  sized : ∀ i n, sizeCaches[i]? = some n → ∃ cache, s.caches i = some cache ∧ n ≤ cache.objSize
  pool : s.pool.Nodup ∧ ∀ g ∈ s.pool, s.slab g = none
  slabs : ∀ g h, s.slab g = some h →
    ∃ cache, s.caches h.cache = some cache ∧ g ∈ cache.slabs ∧ SlabOk s.mem s.live cache g h
  listed : ∀ c cache, s.caches c = some cache →
    cache.slabs.Nodup ∧ ∀ g ∈ cache.slabs, ∃ h, s.slab g = some h ∧ h.cache = c
  totals : ∀ c cache, s.caches c = some cache →
    cache.totalObjs = cache.slabs.length * cache.objsPerSlab ∧ cache.freeObjs = (cache.slabs.map s.freeAt).sum
  live : ∀ p n, s.live p = some n → ∃ h cache, s.slab (slabOf p) = some h ∧ s.caches h.cache = some cache ∧
    p ∈ slots (slabOf p) cache ∧ n ≤ cache.objSize

/-- One slab of a cache changes: its header, words and records of its own objects, and the number of
free objects of the cache with it. -/
structure Changes (s s' : Heap) (g : Nat) (h h' : Slab) (cache : KmemCache) (free : Nat) : Prop where
  pool : s'.pool = s.pool
  caches : s'.caches = update s.caches h.cache (some { cache with freeObjs := free })
  slab : s'.slab = update s.slab g (some h')
  kept : h'.cache = h.cache
  ok : SlabOk s'.mem s'.live cache g h'
  balance : free + h.freeCount = cache.freeObjs + h'.freeCount
  words : ∀ p, slabOf p ≠ g → s'.mem p = s.mem p ∧ s'.live p = s.live p
  records : ∀ p n, s'.live p = some n → s.live p = some n ∨ p ∈ slots g cache ∧ n ≤ cache.objSize

theorem sum_update {l : List Nat} {f f' : Nat → Nat} (member : g ∈ l) (nodup : l.Nodup)
    (same : ∀ x, x ≠ g → f' x = f x) : (l.map f').sum + f g = (l.map f).sum + f' g := by
  induction l with
  | nil => cases member
  | cons x rest ih =>
    rw [List.nodup_cons] at nodup
    rw [List.map_cons, List.map_cons, List.sum_cons, List.sum_cons]
    by_cases here : x = g
    · subst here
      have tail : rest.map f' = rest.map f :=
        List.map_congr_left fun y inRest => same y (ne_of_mem_of_not_mem inRest nodup.1)
      rw [tail]
      omega
    · have tail := ih (List.mem_of_ne_of_mem (Ne.symm here) member) nodup.2
      rw [same x here]
      omega

variable {new : KmemCache} {k : Slab} {x : Nat}

section Change

variable {h' : Slab} {free : Nat}

theorem Inv.owner (inv : Inv s) (header : s.slab g = some h) (owned : s.caches h.cache = some cache) :
    g ∈ cache.slabs ∧ SlabOk s.mem s.live cache g h := by
  obtain ⟨cache', owned', rest⟩ := inv.slabs g h header
  obtain rfl := Option.some.inj (owned.symm.trans owned')
  exact rest

section

variable (changes : Changes s s' g h h' cache free)
include changes

theorem Changes.cache_eq (owned : s.caches h.cache = some cache) (found : s'.caches c = some new) :
    ∃ old, s.caches c = some old ∧ new = { old with freeObjs := new.freeObjs } := by
  rw [changes.caches] at found
  rcases update_cases found with ⟨rfl, ⟨⟩⟩ | ⟨-, found⟩
  · exact ⟨cache, owned, rfl⟩
  · exact ⟨new, found, rfl⟩

theorem Changes.cache_some (owned : s.caches h.cache = some cache) {old : KmemCache} (found : s.caches c = some old) :
    ∃ more, s'.caches c = some { old with freeObjs := more } := by
  rw [changes.caches]
  by_cases mine : c = h.cache
  · subst mine
    obtain rfl := Option.some.inj (owned.symm.trans found)
    exact ⟨free, update_self ..⟩
  · exact ⟨old.freeObjs, (update_of_ne mine _ _).trans found⟩

theorem Changes.header (at_g : s.slab g = some h) {g' : Nat}
    (found : s.slab g' = some k) : ∃ k', s'.slab g' = some k' ∧ k'.cache = k.cache := by
  rw [changes.slab]
  by_cases here : g' = g
  · subst here
    obtain rfl := Option.some.inj (at_g.symm.trans found)
    exact ⟨h', update_self .., changes.kept⟩
  · exact ⟨k, (update_of_ne here _ _).trans found, rfl⟩

section

variable (inv : Inv s) (at_g : s.slab g = some h) (owned : s.caches h.cache = some cache)
include inv at_g owned

theorem Changes.slabs {g' : Nat} (found : s'.slab g' = some k) :
    ∃ new, s'.caches k.cache = some new ∧ g' ∈ new.slabs ∧ SlabOk s'.mem s'.live new g' k := by
  rw [changes.slab] at found
  rcases update_cases found with ⟨rfl, ⟨⟩⟩ | ⟨here, found⟩
  · refine ⟨{ cache with freeObjs := free }, ?_, (inv.owner at_g owned).1, changes.ok⟩
    rw [changes.kept, changes.caches, update_self]
  · obtain ⟨old, ofOld, member, ok⟩ := inv.slabs g' k found
    obtain ⟨more, new⟩ := changes.cache_some owned ofOld
    have page {p : Nat} (slot : p ∈ slots g' old) : slabOf p ≠ g := by
      rw [(inv.shaped _ _ ofOld).slabOf_slot slot]
      exact here
    exact ⟨_, new, member, ok.congr (fun p slot _ => (changes.words p (page slot)).1)
      fun p slot => (changes.words p (page slot)).2⟩

theorem Changes.totals (found : s'.caches c = some new) :
    new.totalObjs = new.slabs.length * new.objsPerSlab ∧ new.freeObjs = (new.slabs.map s'.freeAt).sum := by
  have away {x : Nat} (other : x ≠ g) : s'.freeAt x = s.freeAt x := by
    rw [Heap.freeAt, changes.slab, update_of_ne other]
    rfl
  have before : s.freeAt g = h.freeCount := by rw [Heap.freeAt, at_g]; rfl
  have after : s'.freeAt g = h'.freeCount := by rw [Heap.freeAt, changes.slab, update_self]; rfl
  rw [changes.caches] at found
  rcases update_cases found with ⟨rfl, ⟨⟩⟩ | ⟨mine, found⟩
  · obtain ⟨total, count⟩ := inv.totals _ _ owned
    have moved := sum_update (inv.owner at_g owned).1 (inv.listed _ _ owned).1 fun x => away
    have balance := changes.balance
    refine ⟨total, ?_⟩
    show free = (cache.slabs.map s'.freeAt).sum
    omega
  · obtain ⟨total, count⟩ := inv.totals _ _ found
    refine ⟨total, count.trans (congrArg List.sum (List.map_congr_left fun x member => (away ?_).symm))⟩
    rintro rfl
    obtain ⟨k, header, of_c⟩ := (inv.listed _ _ found).2 x member
    obtain rfl := Option.some.inj (at_g.symm.trans header)
    exact mine of_c.symm

end

end

theorem Inv.change (inv : Inv s) (at_g : s.slab g = some h) (owned : s.caches h.cache = some cache)
    (changes : Changes s s' g h h' cache free) : Inv s' where
  shaped := by
    intro c new found
    obtain ⟨old, ofOld, eq⟩ := changes.cache_eq owned found
    have shaped := inv.shaped c old ofOld
    rw [eq]
    exact { shaped with }
  sized := by
    intro i n found
    obtain ⟨old, ofOld, enough⟩ := inv.sized i n found
    obtain ⟨more, new⟩ := changes.cache_some owned ofOld
    exact ⟨_, new, enough⟩
  pool := by
    rw [changes.pool]
    refine ⟨inv.pool.1, fun g' member => ?_⟩
    rw [changes.slab, update_of_ne]
    · exact inv.pool.2 g' member
    · rintro rfl
      cases at_g.symm.trans (inv.pool.2 _ member)
  slabs := fun g' k found => changes.slabs inv at_g owned found
  listed := by
    intro c new found
    obtain ⟨old, ofOld, eq⟩ := changes.cache_eq owned found
    rw [eq]
    refine ⟨(inv.listed c old ofOld).1, fun g' member => ?_⟩
    obtain ⟨k, header, of_c⟩ := (inv.listed c old ofOld).2 g' member
    obtain ⟨k', new, kept⟩ := changes.header at_g header
    exact ⟨k', new, kept.trans of_c⟩
  totals := fun c new found => changes.totals inv at_g owned found
  live := by
    intro p n held
    rcases changes.records p n held with was | ⟨slot, enough⟩
    · obtain ⟨k, old, header, ofOld, slot, enough⟩ := inv.live p n was
      obtain ⟨k', new, kept⟩ := changes.header at_g header
      obtain ⟨more, changed⟩ := changes.cache_some owned ofOld
      exact ⟨k', { old with freeObjs := more }, new, by rw [kept, changed], slot, enough⟩
    · have page := (inv.shaped _ _ owned).slabOf_slot slot
      refine ⟨h', { cache with freeObjs := free }, ?_, ?_, page.symm ▸ slot, enough⟩
      · rw [page, changes.slab, update_self]
      · rw [changes.kept, changes.caches, update_self]

end Change

theorem Inv.takeObj (inv : Inv s) (owned : s.caches c = some cache) (member : g ∈ cache.slabs) {request : Nat}
    (room : s.roomIn g = true) (small : request ≤ cache.objSize) :
    ∃ s' p, Kmem.takeObj s c g request = some (s', some p) ∧ Inv s' := by
  obtain ⟨h, at_g, rfl⟩ := (inv.listed c cache owned).2 g member
  have some_ : 0 < h.freeCount := by simpa [Heap.roomIn, at_g] using room
  obtain ⟨p, head, slot, free, ok⟩ := (inv.owner at_g owned).2.take some_ request
  refine ⟨_, p, by rw [Kmem.takeObj, at_g]; simp only [Option.bind_eq_bind, Option.bind_some, head, owned]; rfl, ?_⟩
  have page := (inv.shaped _ _ owned).slabOf_slot slot
  refine inv.change at_g owned ⟨rfl, rfl, rfl, rfl, ok, ?_, fun q other => ⟨rfl, ?_⟩, fun q n held => ?_⟩
  · -- the slab's free objects are among those of the cache
    have counted := (inv.totals _ _ owned).2
    have among := List.le_sum_of_mem (List.mem_map_of_mem (f := s.freeAt) member)
    rw [show s.freeAt g = h.freeCount by rw [Heap.freeAt, at_g]; rfl] at among
    show cache.freeObjs - 1 + h.freeCount = cache.freeObjs + (h.freeCount - 1)
    omega
  · apply update_of_ne
    rintro rfl
    exact other page
  · rcases update_cases held with ⟨rfl, ⟨⟩⟩ | ⟨-, held⟩
    · exact .inr ⟨slot, small⟩
    · exact .inl held

theorem Inv.slabFree (inv : Inv s) (at_g : s.slab (slabOf p) = some h) (held : (s.live p).isSome = true) :
    Inv (Kmem.slabFree s (slabOf p) h p) := by
  obtain ⟨n, live⟩ := Option.isSome_iff_exists.mp held
  obtain ⟨k, cache, header, owned, slot, -⟩ := inv.live p n live
  obtain rfl := Option.some.inj (at_g.symm.trans header)
  have ok := (inv.owner at_g owned).2.give slot held
  refine inv.change at_g owned
    ⟨rfl, by rw [Kmem.slabFree, owned]; rfl, rfl, rfl, ok, Nat.add_right_comm _ _ _, fun q other => ?_,
      fun q n still => ?_⟩
  · have ne : q ≠ p := by
      rintro rfl
      exact other rfl
    exact ⟨update_of_ne ne _ _, update_of_ne ne _ _⟩
  · rcases update_cases still with ⟨-, ⟨⟩⟩ | ⟨-, still⟩
    exact .inl still

/-- The cache after grow_cache put a page in front of its slabs. -/
def KmemCache.grown (cache : KmemCache) (g : Nat) : KmemCache :=
  { cache with slabs := g :: cache.slabs, totalObjs := cache.totalObjs + cache.objsPerSlab,
               freeObjs := cache.freeObjs + cache.objsPerSlab }

structure Grown (s s' : Heap) (c g : Nat) (cache : KmemCache) : Prop where
  taken : s.pool = g :: s'.pool
  caches : s'.caches = update s.caches c (some (cache.grown g))
  slab : ∃ head, s'.slab = update s.slab g (some ⟨cache.objsPerSlab, c, head⟩) ∧
    Path s'.mem head (slots g cache) none
  words : ∀ p, slabOf p ≠ g → s'.mem p = s.mem p
  live : s'.live = s.live

theorem growCache_grown (shaped : Shaped cache) (grown : growCache s c cache = some (s', g)) :
    Grown s s' c g cache := by
  rw [growCache] at grown
  cases stock : s.pool with
  | nil =>
    rw [stock] at grown
    cases grown
  | cons page rest =>
    rw [stock] at grown
    cases grown
    have positive : 0 < cache.objSize := lt_of_lt_of_le (by decide) shaped.least
    refine ⟨stock, rfl, ⟨_, rfl, ?_⟩, fun p other => ?_, rfl⟩
    · rw [← List.append_nil (slots g cache)]
      exact threadObjs_path positive rfl (by simp)
    · refine (threadObjs_outside fun i inside => ?_).trans (if_neg other)
      rintro rfl
      exact other (shaped.slabOf_slot (mem_slots.mpr ⟨i, inside, rfl⟩))

theorem Shaped.slots_nodup (shaped : Shaped cache) (g : Nat) : (slots g cache).Nodup := by
  refine List.nodup_range.map_on fun i _ j _ same => ?_
  exact Nat.eq_of_mul_eq_mul_right (lt_of_lt_of_le (by decide) shaped.least) (Nat.add_left_cancel same)

theorem Grown.unused (grown : Grown s s' c g cache) (inv : Inv s) : s.slab g = none :=
  inv.pool.2 g (by rw [grown.taken]; exact List.mem_cons_self)

theorem Grown.fresh (grown : Grown s s' c g cache) (inv : Inv s) (shaped : Shaped cache) {head : Option Nat}
    (path : Path s'.mem head (slots g cache) none) :
    SlabOk s'.mem s'.live (cache.grown g) g ⟨cache.objsPerSlab, c, head⟩ := by
  refine ⟨slots g cache, path, by simp [slots], shaped.slots_nodup g, fun p slot => slot, fun p slot => ?_⟩
  refine iff_of_false (fun held => ?_) (fun absent => absent slot)
  rw [grown.live] at held
  obtain ⟨n, live⟩ := Option.isSome_iff_exists.mp held
  obtain ⟨h, -, header, -⟩ := inv.live p n live
  rw [shaped.slabOf_slot slot, grown.unused inv] at header
  cases header

section Grow

variable (grown : Grown s s' c g cache) (inv : Inv s) (owned : s.caches c = some cache)

include grown inv

theorem Grown.header (found : s.slab x = some k) : s'.slab x = some k := by
  obtain ⟨head, slab, -⟩ := grown.slab
  rw [slab, update_of_ne, found]
  rintro rfl
  cases (grown.unused inv).symm.trans found

omit inv in
theorem Grown.mine : s'.caches c = some (cache.grown g) := by rw [grown.caches, update_self]

omit inv in
theorem Grown.cache_cases (found : s'.caches x = some new) : (x = c ∧ new = cache.grown g) ∨ s.caches x = some new := by
  by_cases here : x = c
  · subst here
    exact .inl ⟨rfl, (Option.some.inj (grown.mine.symm.trans found)).symm⟩
  · rw [grown.caches, update_of_ne here] at found
    exact .inr found

include owned

omit inv in
theorem Grown.kept {old : KmemCache} (found : s.caches x = some old) :
    ∃ new, s'.caches x = some new ∧ new.objSize = old.objSize ∧ (∀ y, slots y new = slots y old) ∧
      ∀ y ∈ old.slabs, y ∈ new.slabs := by
  by_cases here : x = c
  · subst here
    obtain rfl := Option.some.inj (owned.symm.trans found)
    exact ⟨_, grown.mine, rfl, fun _ => rfl, fun y member => List.mem_cons_of_mem g member⟩
  · refine ⟨old, ?_, rfl, fun _ => rfl, fun y member => member⟩
    rw [grown.caches, update_of_ne here, found]

theorem Grown.slabs (found : s'.slab x = some k) :
    ∃ new, s'.caches k.cache = some new ∧ x ∈ new.slabs ∧ SlabOk s'.mem s'.live new x k := by
  obtain ⟨head, slab, path⟩ := grown.slab
  rw [slab] at found
  rcases update_cases found with ⟨rfl, ⟨⟩⟩ | ⟨here, found⟩
  · exact ⟨_, grown.mine, List.mem_cons_self, grown.fresh inv (inv.shaped c cache owned) path⟩
  · obtain ⟨old, ofOld, member, ok⟩ := inv.slabs x k found
    obtain ⟨new, ofNew, -, same, more⟩ := grown.kept owned ofOld
    refine ⟨new, ofNew, more x member, ?_⟩
    rw [SlabOk, same x]
    refine ok.congr (fun p slot _ => grown.words p ?_) fun p _ => by rw [grown.live]
    rw [(inv.shaped _ _ ofOld).slabOf_slot slot]
    exact here

theorem Grown.listed (found : s'.caches x = some new) :
    new.slabs.Nodup ∧ ∀ y ∈ new.slabs, ∃ k, s'.slab y = some k ∧ k.cache = x := by
  have still {x : Nat} {old : KmemCache} (ofOld : s.caches x = some old) {y : Nat} (member : y ∈ old.slabs) :
      ∃ k, s'.slab y = some k ∧ k.cache = x := by
    obtain ⟨k, header, of_x⟩ := (inv.listed x old ofOld).2 y member
    exact ⟨k, grown.header inv header, of_x⟩
  rcases grown.cache_cases found with ⟨rfl, rfl⟩ | old
  · obtain ⟨nodup, listed⟩ := inv.listed x cache owned
    refine ⟨List.nodup_cons.mpr ⟨fun member => ?_, nodup⟩, fun y member => ?_⟩
    · obtain ⟨k, header, -⟩ := listed g member
      cases (grown.unused inv).symm.trans header
    · rcases List.mem_cons.mp member with rfl | member
      · obtain ⟨head, slab, -⟩ := grown.slab
        exact ⟨_, by rw [slab, update_self], rfl⟩
      · exact still owned member
  · exact ⟨(inv.listed x new old).1, fun y member => still old member⟩

theorem Grown.totals (found : s'.caches x = some new) :
    new.totalObjs = new.slabs.length * new.objsPerSlab ∧ new.freeObjs = (new.slabs.map s'.freeAt).sum := by
  have count {x : Nat} {old : KmemCache} (ofOld : s.caches x = some old) :
      old.slabs.map s'.freeAt = old.slabs.map s.freeAt := by
    refine List.map_congr_left fun y member => ?_
    obtain ⟨k, header, -⟩ := (inv.listed x old ofOld).2 y member
    rw [Heap.freeAt, Heap.freeAt, grown.header inv header, header]
  rcases grown.cache_cases found with ⟨rfl, rfl⟩ | old
  · obtain ⟨total, free⟩ := inv.totals x cache owned
    obtain ⟨head, slab, -⟩ := grown.slab
    constructor
    · show cache.totalObjs + cache.objsPerSlab = (cache.slabs.length + 1) * cache.objsPerSlab
      rw [total, Nat.succ_mul]
    · show cache.freeObjs + cache.objsPerSlab = s'.freeAt g + (cache.slabs.map s'.freeAt).sum
      rw [count owned, ← free, Heap.freeAt, slab, update_self, Nat.add_comm]
      rfl
  · rw [count old]
    exact inv.totals x new old

theorem Grown.keeps : Inv s' where
  shaped := by
    intro x new found
    rcases grown.cache_cases found with ⟨-, rfl⟩ | old
    · have shaped := inv.shaped c cache owned
      exact { shaped with }
    · exact inv.shaped x new old
  sized := by
    intro i n found
    obtain ⟨old, ofOld, enough⟩ := inv.sized i n found
    obtain ⟨new, ofNew, same, -⟩ := grown.kept owned ofOld
    exact ⟨new, ofNew, same ▸ enough⟩
  pool := by
    obtain ⟨head, slab, -⟩ := grown.slab
    have nodup := inv.pool.1
    rw [grown.taken, List.nodup_cons] at nodup
    refine ⟨nodup.2, fun x member => ?_⟩
    rw [slab, update_of_ne (ne_of_mem_of_not_mem member nodup.1)]
    exact inv.pool.2 x (by rw [grown.taken]; exact List.mem_cons_of_mem g member)
  slabs := fun x k found => grown.slabs inv owned found
  listed := fun x new found => grown.listed inv owned found
  totals := fun x new found => grown.totals inv owned found
  live := by
    intro p n held
    rw [grown.live] at held
    obtain ⟨k, old, header, ofOld, slot, enough⟩ := inv.live p n held
    obtain ⟨new, ofNew, size, same, -⟩ := grown.kept owned ofOld
    exact ⟨k, new, grown.header inv header, ofNew, (same _).symm ▸ slot, size ▸ enough⟩

end Grow

/-- An allocation from an initialised cache returns; without an object it changes nothing. -/
structure Allocates (s : Heap) (made : Option (Heap × Option Nat)) : Prop where
  returns : ∃ s' p, made = some (s', p)
  keeps : ∀ s' p, made = some (s', p) → Inv s' ∧ (p = none → s' = s)

theorem Allocates.of {s s' : Heap} {made : Option (Heap × Option Nat)} {p : Option Nat} (eq : made = some (s', p))
    (inv : Inv s') (failed : p = none → s' = s) : Allocates s made := by
  refine ⟨⟨s', p, eq⟩, fun t q again => ?_⟩
  cases eq.symm.trans again
  exact ⟨inv, failed⟩

theorem Inv.kmemCacheAlloc (inv : Inv s) (owned : s.caches c = some cache) {request : Nat}
    (small : request ≤ cache.objSize) : Allocates s (Kmem.kmemCacheAlloc s c request) := by
  rw [Kmem.kmemCacheAlloc, owned]
  simp only [Option.bind_eq_bind, Option.bind_some]
  cases found : cache.slabs.find? s.roomIn with
  | some g =>
    obtain ⟨s', p, taken, kept⟩ := inv.takeObj owned (List.mem_of_find?_eq_some found) (List.find?_some found) small
    exact .of taken kept (fun none => by cases none)
  | none =>
    cases grow : growCache s c cache with
    | none => exact .of rfl inv fun _ => rfl
    | some made =>
      obtain ⟨s', g⟩ := made
      have grown := growCache_grown (inv.shaped c cache owned) grow
      have room : s'.roomIn g = true := by
        obtain ⟨head, slab, -⟩ := grown.slab
        rw [Heap.roomIn, slab, update_self]
        exact decide_eq_true (inv.shaped c cache owned).some_
      obtain ⟨t, p, taken, kept⟩ := (grown.keeps inv owned).takeObj grown.mine List.mem_cons_self room small
      exact .of taken kept (fun none => by cases none)

theorem Inv.kmalloc (inv : Inv s) (size : Nat) : Allocates s (Kmem.kmalloc s size) := by
  rw [Kmem.kmalloc]
  split
  · exact .of rfl inv fun _ => rfl
  · cases found : sizeCaches.findIdx? (size ≤ ·) with
    | none => exact .of rfl inv fun _ => rfl
    | some i =>
      obtain ⟨inside, fits, -⟩ := List.findIdx?_eq_some_iff_getElem.mp found
      obtain ⟨cache, owned, enough⟩ := inv.sized i _ (List.getElem?_eq_getElem inside)
      exact inv.kmemCacheAlloc owned ((of_decide_eq_true fits).trans enough)

def Op.allocates : Op → Bool
  | .cacheAlloc _ | .kmalloc _ => true
  | _ => false

theorem Inv.allocates {op : Op} (inv : Inv s) (allocates : op.allocates = true) (fair : fair s op) :
    Allocates s (call s op) := by
  cases op with
  | cacheAlloc c =>
    obtain ⟨cache, owned⟩ := Option.isSome_iff_exists.mp fair
    refine inv.kmemCacheAlloc owned ?_
    rw [owned]
    exact (inv.shaped c cache owned).asked
  | kmalloc size => exact inv.kmalloc size
  | _ => cases allocates

theorem roundSize_shaped {size : Nat} (small : size ≤ 4064) :
    Shaped ⟨size, roundSize size, objsPerSlabFor (roundSize size), [], 0, 0⟩ := by
  have rounded : 8 ≤ roundSize size ∧ size ≤ roundSize size ∧ roundSize size ≤ 4064 ∧ 8 ∣ roundSize size := by
    rw [roundSize]
    split <;> omega
  have fits : objsPerSlabFor (roundSize size) * roundSize size ≤ 4064 := Nat.div_mul_le_self 4064 _
  exact ⟨rounded.2.2.2, rounded.1, rounded.2.1, Nat.div_pos rounded.2.2.1 (by omega), fits⟩

/-- A cache without slabs: no page and no object belongs to it. -/
theorem Inv.init {size : Nat} (inv : Inv s) (unused : ∀ cache ∈ s.caches c, cache.slabs = [])
    (roomy : ∀ n ∈ sizeCaches[c]?, n ≤ size) (small : size ≤ 4064) : Inv (kmemCacheInit s c size) := by
  have old {g x : Nat} {cache : KmemCache} (found : s.caches x = some cache) (member : g ∈ cache.slabs) :
      (kmemCacheInit s c size).caches x = some cache := by
    refine (update_of_ne ?_ _ _).trans found
    rintro rfl
    rw [unused cache found] at member
    cases member
  have split {x : Nat} {cache : KmemCache} (found : (kmemCacheInit s c size).caches x = some cache) :
      s.caches x = some cache ∨ cache = ⟨size, roundSize size, objsPerSlabFor (roundSize size), [], 0, 0⟩ := by
    rcases update_cases found with ⟨-, ⟨⟩⟩ | ⟨-, found⟩
    · exact .inr rfl
    · exact .inl found
  refine ⟨fun x cache found => ?_, fun i n found => ?_, inv.pool, fun g h found => ?_, fun x cache found => ?_,
    fun x cache found => ?_, fun p n held => ?_⟩
  · rcases split found with was | rfl
    · exact inv.shaped x cache was
    · exact roundSize_shaped small
  · by_cases same : i = c
    · subst same
      exact ⟨_, update_self .., (roomy n found).trans (roundSize_shaped small).asked⟩
    · obtain ⟨cache, owned, enough⟩ := inv.sized i n found
      exact ⟨cache, (update_of_ne same _ _).trans owned, enough⟩
  · obtain ⟨cache, owned, member, ok⟩ := inv.slabs g h found
    exact ⟨cache, old owned member, member, ok⟩
  · rcases split found with was | rfl
    · exact inv.listed x cache was
    · exact ⟨List.nodup_nil, fun g member => by cases member⟩
  · rcases split found with was | rfl
    · exact inv.totals x cache was
    · exact ⟨(Nat.zero_mul _).symm, rfl⟩
  · obtain ⟨h, cache, header, owned, slot, enough⟩ := inv.live p n held
    obtain ⟨_, owned', member, -⟩ := inv.slabs _ h header
    obtain rfl := Option.some.inj (owned.symm.trans owned')
    exact ⟨h, cache, header, old owned member, slot, enough⟩

/-- A store in a live object misses every free one. -/
theorem Inv.store (inv : Inv s) {k : Nat} {value : Option Nat} (held : (s.live p).isSome = true)
    (inside : 8 * k + 8 ≤ s.objSizeAt p) : Inv { s with mem := update s.mem (p + 8 * k) value } := by
  refine ⟨inv.shaped, inv.sized, inv.pool, fun g h found => ?_, inv.listed, inv.totals, inv.live⟩
  obtain ⟨cache, owned, member, ok⟩ := inv.slabs g h found
  refine ⟨cache, owned, member, ok.congr (fun q slot free => update_of_ne ?_ _ _) fun _ _ => rfl⟩
  rintro rfl
  obtain ⟨n, live⟩ := Option.isSome_iff_exists.mp held
  obtain ⟨k', cache', header, owned', slot', -⟩ := inv.live p n live
  have size : s.objSizeAt p = cache'.objSize := by rw [Heap.objSizeAt, header]; simp [owned']
  have shaped := inv.shaped _ _ owned'
  obtain ⟨i, less, at_p⟩ := mem_slots.mp slot'
  have bounds := shaped.slot_bounds less
  have page : slabOf (p + 8 * k) = slabOf p := by
    have inPage : p = slabOf p * 4096 + slabHeaderSize + i * cache'.objSize := at_p.symm
    rw [slabOf]
    omega
  have same : g = slabOf p := by rw [← page, (inv.shaped _ _ owned).slabOf_slot slot]
  subst same
  obtain rfl := Option.some.inj (header.symm.trans found)
  obtain rfl := Option.some.inj (owned'.symm.trans owned)
  by_cases first : p = p + 8 * k
  · rw [← first, live] at free
    cases free
  · rcases slots_apart slot' slot first with apart | apart <;> omega

theorem Inv.setPool {pool : List Nat} (inv : Inv s) (nodup : pool.Nodup) (unused : ∀ g ∈ pool, s.slab g = none) :
    Inv { s with pool := pool } :=
  ⟨inv.shaped, inv.sized, ⟨nodup, unused⟩, inv.slabs, inv.listed, inv.totals, inv.live⟩

theorem Inv.step {op : Op} (inv : Inv s) (allowed : fair s op ∧ onUnused s op) (made : step s op = some s') :
    Inv s' := by
  obtain ⟨⟨t, p⟩, called, rfl⟩ := Option.map_eq_some_iff.mp made
  obtain ⟨fair, unused⟩ := allowed
  cases op with
  | init c size =>
    cases called
    exact inv.init unused.1 unused.2 fair
  | cacheAlloc | kmalloc => exact ((inv.allocates rfl fair).keeps t p called).1
  | cacheFree c p =>
    cases called
    rw [kmemCacheFree]
    cases header : s.slab (slabOf p) with
    | none => exact inv
    | some h =>
      show Inv (if h.cache ≠ c then s else Kmem.slabFree s (slabOf p) h p)
      split
      · exact inv
      · exact inv.slabFree header fair
  | kfree p =>
    cases called
    rw [kfree]
    cases header : s.slab (slabOf p) with
    | none => exact inv
    | some h => exact inv.slabFree header fair
  | store p k value =>
    cases called
    exact inv.store fair.1 fair.2
  | takePage =>
    cases called
    exact inv.setPool (inv.pool.1.sublist (List.tail_sublist _)) fun g member =>
      inv.pool.2 g (List.mem_of_mem_tail member)
  | givePage g =>
    cases called
    refine inv.setPool (List.nodup_cons.mpr ⟨fair.2.1, inv.pool.1⟩) fun x member => ?_
    rcases List.mem_cons.mp member with rfl | member
    · exact Option.isNone_iff_eq_none.mp fair.2.2
    · exact inv.pool.2 x member

theorem booted_caches (pool : List Nat) (x : Nat) : (kmemInit (boot pool)).caches x =
    sizeCaches[x]?.map fun n => ⟨n, roundSize n, objsPerSlabFor (roundSize n), [], 0, 0⟩ := by
  rcases x with _ | _ | _ | _ | _ | _ | _ | _ | x <;> rfl

/-- After kmem_init there are the eight caches of kmalloc and nothing else. -/
theorem Inv.booted (booted : Booted s) : Inv s := by
  obtain ⟨pool, nodup, -, rfl⟩ := booted
  have small : ∀ n ∈ sizeCaches, n ≤ 4064 := by decide
  have cases_ {x : Nat} {cache : KmemCache} (found : (kmemInit (boot pool)).caches x = some cache) :
      ∃ n ≤ 4064, cache = ⟨n, roundSize n, objsPerSlabFor (roundSize n), [], 0, 0⟩ := by
    rw [booted_caches] at found
    obtain ⟨n, listed, eq⟩ := Option.map_eq_some_iff.mp found
    exact ⟨n, small n (List.mem_of_getElem? listed), eq.symm⟩
  refine ⟨fun x cache found => ?_, fun i n found => ?_, ⟨nodup, fun _ _ => rfl⟩, fun g h found => ?_,
    fun x cache found => ?_, fun x cache found => ?_, fun p n held => ?_⟩
  · obtain ⟨n, fits, rfl⟩ := cases_ found
    exact roundSize_shaped fits
  · refine ⟨_, by rw [booted_caches, found]; rfl, ?_⟩
    exact (roundSize_shaped (small n (List.mem_of_getElem? found))).asked
  · cases found
  · obtain ⟨n, -, rfl⟩ := cases_ found
    exact ⟨List.nodup_nil, fun g member => by cases member⟩
  · obtain ⟨n, -, rfl⟩ := cases_ found
    exact ⟨(Nat.zero_mul _).symm, rfl⟩
  · cases held

structure Sound (s : Heap) : Prop where
  apart : ∀ p q, (s.live p).isSome = true → (s.live q).isSome = true → p ≠ q →
    p + s.objSizeAt p ≤ q ∨ q + s.objSizeAt q ≤ p
  placed : ∀ p n, s.live p = some n → (s.slab (slabOf p)).isSome = true ∧ slabHeaderSize ≤ p % 4096 ∧
    p % 4096 + s.objSizeAt p ≤ 4096 ∧ 8 ∣ p ∧ n ≤ s.objSizeAt p
  slabs : ∀ g h, s.slab g = some h → ∃ cache, s.caches h.cache = some cache ∧ SlabOk s.mem s.live cache g h
  totals : ∀ c cache, s.caches c = some cache → cache.slabs.Nodup ∧
    (∀ g, g ∈ cache.slabs ↔ ∃ h, s.slab g = some h ∧ h.cache = c) ∧
    cache.totalObjs = (cache.slabs.map fun g => (slots g cache).length).sum ∧
    cache.freeObjs = (cache.slabs.map s.freeAt).sum

theorem Inv.place (inv : Inv s) {n : Nat} (held : s.live p = some n) :
    ∃ h cache i, s.slab (slabOf p) = some h ∧ s.caches h.cache = some cache ∧ i < cache.objsPerSlab ∧
      objAt (slabOf p) cache.objSize i = p ∧ s.objSizeAt p = cache.objSize ∧ n ≤ cache.objSize := by
  obtain ⟨h, cache, header, owned, slot, enough⟩ := inv.live p n held
  obtain ⟨i, inside, at_p⟩ := mem_slots.mp slot
  exact ⟨h, cache, i, header, owned, inside, at_p, by rw [Heap.objSizeAt, header]; simp [owned], enough⟩

theorem Inv.sound (inv : Inv s) : Sound s where
  apart := by
    intro p q first second other
    obtain ⟨n, heldP⟩ := Option.isSome_iff_exists.mp first
    obtain ⟨m, heldQ⟩ := Option.isSome_iff_exists.mp second
    obtain ⟨h, cache, i, header, owned, less, at_p, size, -⟩ := inv.place heldP
    obtain ⟨k, cache', j, header', owned', less', at_q, size', -⟩ := inv.place heldQ
    have boundsP := (inv.shaped _ _ owned).slot_bounds less
    have boundsQ := (inv.shaped _ _ owned').slot_bounds less'
    rw [size, size']
    by_cases page : slabOf p = slabOf q
    · rw [page] at header at_p
      obtain rfl := Option.some.inj (header.symm.trans header')
      obtain rfl := Option.some.inj (owned.symm.trans owned')
      exact slots_apart (mem_slots.mpr ⟨i, less, at_p⟩) (mem_slots.mpr ⟨j, less', at_q⟩) other
    · rw [objAt] at at_p at_q
      omega
  placed := by
    intro p n held
    obtain ⟨h, cache, i, header, owned, less, at_p, size, enough⟩ := inv.place held
    have shaped := inv.shaped _ _ owned
    have bounds := shaped.slot_bounds less
    have least := shaped.least
    have aligned : 8 ∣ i * cache.objSize := Dvd.dvd.mul_left shaped.aligned i
    rw [size, header]
    rw [objAt, slabHeaderSize] at at_p
    rw [slabHeaderSize] at bounds ⊢
    exact ⟨rfl, by omega, by omega, by omega, enough⟩
  slabs := by
    intro g h header
    obtain ⟨cache, owned, -, ok⟩ := inv.slabs g h header
    exact ⟨cache, owned, ok⟩
  totals := by
    intro c cache owned
    obtain ⟨total, free⟩ := inv.totals c cache owned
    refine ⟨(inv.listed c cache owned).1, fun g => ⟨(inv.listed c cache owned).2 g, ?_⟩, ?_, free⟩
    · rintro ⟨h, header, rfl⟩
      exact (inv.owner header owned).1
    · simp [total, slots]

/-- In every run in which no cache with slabs is initialised again and clients free what they hold, live objects,
slabs and counts are as promised, allocations return, and one that fails changes nothing. -/
theorem slab_allocator_sound (s : Heap) (reached : Run.Reach step (fun s op => fair s op ∧ onUnused s op) Booted s) :
    Sound s ∧ ∀ op : Op, op.allocates = true → fair s op →
      (∃ s' p, call s op = some (s', p)) ∧ ∀ s', call s op = some (s', none) → s' = s := by
  have inv : Inv s := reached.invariant (fun _ => .booted) fun _ _ _ inv allowed made => inv.step allowed made
  refine ⟨inv.sound, fun op allocates fair => ?_⟩
  have result := inv.allocates allocates fair
  exact ⟨result.returns, fun s' failed => (result.keeps s' none failed).2 rfl⟩

/-- A heap of two pages on which a client holds an object of 24 bytes and one of 100. -/
theorem slab_allocator_sound_two : ∃ s, Run.Reach step (fun s op => fair s op ∧ onUnused s op) Booted s ∧
    (s.live 4128).isSome = true ∧ (s.live 8224).isSome = true ∧ Sound s := by
  have booted : Booted (kmemInit (boot [1, 2])) := ⟨[1, 2], by decide, by decide, rfl⟩
  obtain ⟨s, reached, ⟨small, large⟩, sound⟩ :=
    Run.Reach.found_with (P := fun s => (s.live 4128).isSome ∧ (s.live 8224).isSome)
    slab_allocator_sound [.init 9 8, .init 9 24, .cacheAlloc 9, .kmalloc 100] booted (by decide +kernel)
  exact ⟨s, reached, small, large, sound.1⟩

/-- A cache initialised again forgets its slabs: an object of theirs that is freed later is counted for
slabs that are not there. -/
theorem reinit_miscounts : ∃ s, Run.Reach step fair Booted s ∧ ¬ Sound s := by
  have booted : Booted (kmemInit (boot [1])) := ⟨[1], by decide, by decide, rfl⟩
  obtain ⟨s, reached, cache, owned, one, empty⟩ : ∃ s, Run.Reach step fair Booted s ∧
      ∃ cache ∈ s.caches 9, cache.freeObjs = 1 ∧ cache.slabs.isEmpty :=
    Run.Reach.found [.init 9 24, .cacheAlloc 9, .init 9 24, .cacheFree 9 4128] booted (by decide +kernel)
  refine ⟨s, reached, fun sound => ?_⟩
  have counted := (sound.totals 9 cache owned).2.2.2
  rw [List.isEmpty_iff.mp empty, one] at counted
  cases counted

end Kappara.Kmem
