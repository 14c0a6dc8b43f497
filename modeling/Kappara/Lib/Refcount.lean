import Kappara.Lib.Basic

/-! Pools of objects, and objects shared by counted handles.

A pool hands objects out and takes them back, and is settled while what has been
handed out is either live or was returned. An object that handles point at counts
them: it is live while there is one, and the last handle to go takes it along. -/

set_option autoImplicit false

open Function (update update_eq_self update_of_ne update_self)

/-- The live objects of an allocator, and how often each address was handed out and returned. -/
structure Pool (A V : Type) where
  cells : A → Option V
  handed : A → Nat
  returned : A → Nat

namespace Pool

variable {A V : Type} {pool : Pool A V} {a : A} {v w : V}

def empty : Pool A V := ⟨fun _ => none, fun _ => 0, fun _ => 0⟩

def Settled (pool : Pool A V) : Prop :=
  ∀ a, pool.returned a + (if (pool.cells a).isSome then 1 else 0) = pool.handed a

theorem Settled.empty : (Pool.empty : Pool A V).Settled := fun _ => rfl

variable [DecidableEq A]

def take (pool : Pool A V) (a : A) (v : V) : Pool A V :=
  ⟨update pool.cells a (some v), update pool.handed a (pool.handed a + 1), pool.returned⟩

def drop (pool : Pool A V) (a : A) : Pool A V :=
  ⟨update pool.cells a none, pool.handed, update pool.returned a (pool.returned a + 1)⟩

def set (pool : Pool A V) (a : A) (v : V) : Pool A V := { pool with cells := update pool.cells a (some v) }

@[simp] theorem take_cells : (pool.take a v).cells = update pool.cells a (some v) := rfl

@[simp] theorem drop_cells : (pool.drop a).cells = update pool.cells a none := rfl

@[simp] theorem set_cells : (pool.set a v).cells = update pool.cells a (some v) := rfl

@[simp] theorem drop_returned : (pool.drop a).returned = update pool.returned a (pool.returned a + 1) := rfl

@[simp] theorem set_returned : (pool.set a v).returned = pool.returned := rfl

theorem take_drop_cells (free : pool.cells a = none) : ((pool.take a v).drop a).cells = pool.cells := by
  simp [← free]

section

variable (settled : pool.Settled)
include settled

theorem Settled.take (free : pool.cells a = none) : (pool.take a v).Settled := by
  intro b
  have here := settled b
  by_cases same : b = a
  · subst same
    simp [Pool.take, free] at here ⊢
    omega
  · simpa [Pool.take, same] using here

theorem Settled.drop (live : pool.cells a = some v) : (pool.drop a).Settled := by
  intro b
  have here := settled b
  by_cases same : b = a
  · subst same
    simp [Pool.drop, live] at here ⊢
    omega
  · simpa [Pool.drop, same] using here

theorem Settled.take_drop (free : pool.cells a = none) : ((pool.take a v).drop a).Settled := by
  apply (settled.take free).drop
  rw [take_cells, update_self]

theorem Settled.set (live : pool.cells a = some v) : (pool.set a w).Settled := by
  intro b
  have here := settled b
  by_cases same : b = a
  · subst same
    simpa [Pool.set, live] using here
  · simpa [Pool.set, same] using here

end

end Pool

namespace Refcount

variable {M D : Type} [Fintype M] [DecidableEq D] {points : M → Option D} {count : D → Option Nat} {m : M} {d : D}
  {k : Nat}

def holders (points : M → Option D) (d : D) : Finset M := Finset.univ.filter fun m => points m = some d

@[simp] theorem mem_holders : m ∈ holders points d ↔ points m = some d := by simp [holders]

structure Counted (points : M → Option D) (count : D → Option Nat) : Prop where
  exact : ∀ d k, count d = some k → k = (holders points d).card
  live : ∀ d, count d = none ↔ holders points d = ∅

theorem Counted.le (counted : Counted points count) (found : count d = some k) : k ≤ Fintype.card M := by
  rw [counted.exact d k found]
  exact Finset.card_le_univ _

theorem Counted.unique {count' : D → Option Nat} (counted : Counted points count) (counted' : Counted points count') :
    count = count' := by
  funext d
  cases found : count d with
  | none => exact ((counted'.live d).mpr ((counted.live d).mp found)).symm
  | some k =>
    cases found' : count' d with
    | none =>
      rw [(counted.live d).mpr ((counted'.live d).mp found')] at found
      cases found
    | some j => rw [counted.exact d k found, counted'.exact d j found']

theorem Counted.count_of_points (counted : Counted points count) (here : points m = some d) :
    ∃ k, count d = some k ∧ k = (holders points d).card ∧ 0 < k := by
  have inhabited : holders points d ≠ ∅ := Finset.ne_empty_of_mem (mem_holders.mpr here)
  cases found : count d with
  | none => exact absurd ((counted.live d).mp found) inhabited
  | some k =>
    have size := counted.exact d k found
    exact ⟨k, rfl, size, size ▸ Finset.card_pos.mpr (Finset.nonempty_iff_ne_empty.mpr inhabited)⟩

theorem Counted.empty (idle : ∀ m, points m = none) (dead : ∀ d, count d = none) : Counted points count where
  exact d k found := by simp [dead] at found
  live d := by
    rw [dead, Finset.eq_empty_iff_forall_notMem]
    simp [idle]

section Update

variable [DecidableEq M]

theorem holders_attach (free : points m = none) (d e : D) :
    holders (update points m (some d)) e = if e = d then insert m (holders points e) else holders points e := by
  ext x
  by_cases here : x = m
  · subst here
    by_cases same : e = d <;> simp [same, free, Ne.symm]
  · by_cases same : e = d <;> simp [here, same]

theorem holders_detach (e : D) : holders (update points m none) e = (holders points e).erase m := by
  ext x
  by_cases here : x = m <;> simp [here]

section

variable (counted : Counted points count)
include counted

theorem Counted.keep {target : Option D} (same : points m = target) :
    Counted (update points m target) count := by
  rw [← same, update_eq_self]
  exact counted

theorem Counted.grow (free : points m = none) (size : (holders points d).card = k) :
    Counted (update points m (some d)) (update count d (some (k + 1))) := by
  constructor
  · intro e j
    by_cases same : e = d
    · subst same
      simp only [update_self, Option.some.injEq]
      rintro rfl
      rw [holders_attach free, if_pos rfl, Finset.card_insert_of_notMem (by simp [free]), size]
    · rw [update_of_ne same, holders_attach free, if_neg same]
      exact counted.exact e j
  · intro e
    by_cases same : e = d
    · subst same
      rw [holders_attach free]
      simp
    · rw [update_of_ne same, holders_attach free, if_neg same]
      exact counted.live e

theorem Counted.attach (free : points m = none) (found : count d = some k) :
    Counted (update points m (some d)) (update count d (some (k + 1))) :=
  counted.grow free (counted.exact d k found).symm

theorem Counted.fresh (free : points m = none) (dead : count d = none) :
    Counted (update points m (some d)) (update count d (some 1)) :=
  counted.grow free (Finset.card_eq_zero.mpr ((counted.live d).mp dead))

theorem Counted.detach (here : points m = some d) (found : count d = some k) :
    Counted (update points m none) (update count d (if k = 1 then none else some (k - 1))) := by
  obtain ⟨_, found', size, positive⟩ := counted.count_of_points here
  cases found.symm.trans found'
  have others : ∀ e, e ≠ d → holders (update points m none) e = holders points e := by
    intro e other
    rw [holders_detach, Finset.erase_eq_of_notMem]
    rw [mem_holders, here]
    exact fun same => other (Option.some.inj same).symm
  have fewer : (holders (update points m none) d).card = k - 1 := by
    rw [holders_detach, Finset.card_erase_of_mem (mem_holders.mpr here), ← size]
  constructor
  · intro e j
    by_cases same : e = d
    · subst same
      rw [update_self, fewer]
      split
      · rintro ⟨⟩
      · rintro ⟨⟩
        rfl
    · rw [update_of_ne same, others e same]
      exact counted.exact e j
  · intro e
    by_cases same : e = d
    · subst same
      rw [update_self, ← Finset.card_eq_zero, fewer]
      split
      next last => simp [last]
      next more =>
        simp only [reduceCtorEq, false_iff]
        omega
    · rw [update_of_ne same, others e same]
      exact counted.live e

end

end Update

end Refcount
