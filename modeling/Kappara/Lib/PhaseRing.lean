import Kappara.Lib.Basic

/-! A ring of cells that one side fills and the other empties, told apart by a tag.

The writer puts the n-th entry into cell n modulo the size and tags it with the
parity of its round. The reader, which knows only how many entries it has taken,
sees from the tag of the next cell whether an entry is waiting there. -/

set_option autoImplicit false

namespace PhaseRing

variable {α : Type} {size taken n : Nat} {cells : Nat → α × Bool} {a : α} {pending : List α}

/-- The tag of the n-th entry; the first round has the tag true. -/
def phase (size n : Nat) : Bool := n / size % 2 == 0

theorem even_succ (q : Nat) : ((q + 1) % 2 == 0) = !(q % 2 == 0) := by
  rcases Nat.mod_two_eq_zero_or_one q with even | odd
  · simp [Nat.add_mod, even]
  · simp [Nat.add_mod, odd]

theorem phase_add_size (positive : 0 < size) : phase size (n + size) = !phase size n := by
  rw [phase, phase, Nat.add_div_right n positive, even_succ]

theorem phase_succ (size n : Nat) : phase size (n + 1) =
    if (n + 1) % size = 0 then !phase size n else phase size n := by
  rw [phase, phase, Nat.succ_div]
  by_cases wraps : (n + 1) % size = 0
  · rw [if_pos wraps, if_pos (Nat.dvd_of_mod_eq_zero wraps), even_succ]
  · rw [if_neg wraps, if_neg fun divides => wraps (Nat.mod_eq_zero_of_dvd divides), Nat.add_zero]

theorem mod_ne {i j : Nat} (less : i < j) (near : j < i + size) : i % size ≠ j % size := by
  intro same
  have divides : size ∣ j - i := (Nat.modEq_iff_dvd' less.le).mp same
  have := Nat.le_of_dvd (by omega) divides
  omega

/-- The ring after taken entries were taken, with the pending ones still in it. -/
structure Holds (size : Nat) (cells : Nat → α × Bool) (taken : Nat) (pending : List α) : Prop where
  fits : pending.length ≤ size
  filled : ∀ i (inside : i < pending.length), cells ((taken + i) % size) = (pending[i], phase size (taken + i))
  stale : ∀ n, taken + pending.length ≤ n → n < taken + size → (cells (n % size)).2 = !phase size n

theorem Holds.start (clear : ∀ i < size, (cells i).2 = false) : Holds size cells 0 [] := by
  refine ⟨Nat.zero_le _, fun i inside => absurd inside (Nat.not_lt_zero i), fun n _ below => ?_⟩
  rw [Nat.zero_add] at below
  rw [Nat.mod_eq_of_lt below, clear n below, phase, Nat.div_eq_of_lt below]
  rfl

theorem Holds.push (holds : Holds size cells taken pending) (room : pending.length < size) (a : α) : Holds size
      (Function.update cells ((taken + pending.length) % size) (a, phase size (taken + pending.length)))
      taken (pending ++ [a]) := by
  refine ⟨?_, fun i inside => ?_, fun n above below => ?_⟩
  · rw [List.length_append]
    exact room
  · rw [List.length_append, List.length_singleton] at inside
    by_cases last : i = pending.length
    · subst last
      simp
    · have old : i < pending.length := by omega
      rw [Function.update_of_ne (mod_ne (by omega) (by omega)), holds.filled i old, List.getElem_append_left old]
  · rw [List.length_append, List.length_singleton] at above
    rw [Function.update_of_ne (mod_ne (by omega) (by omega)).symm]
    exact holds.stale n (by omega) below

theorem Holds.front (holds : Holds size cells taken (a :: pending)) : cells (taken % size) = (a, phase size taken) :=
  holds.filled 0 (Nat.succ_pos _)

theorem Holds.pop (holds : Holds size cells taken (a :: pending)) : Holds size cells (taken + 1) pending := by
  have fits := holds.fits
  rw [List.length_cons] at fits
  refine ⟨by omega, fun i inside => ?_, fun n above below => ?_⟩
  · have shifted := holds.filled (i + 1) (by rw [List.length_cons]; omega)
    rwa [show taken + (i + 1) = taken + 1 + i by omega] at shifted
  · by_cases around : n = taken + size
    · subst around
      rw [Nat.add_mod_right, holds.front, phase_add_size (by omega), Bool.not_not]
    · exact holds.stale n (by rw [List.length_cons]; omega) (by omega)

/-- The tag of the next cell tells whether an entry is waiting. -/
theorem Holds.waiting_iff (holds : Holds size cells taken pending) (positive : 0 < size) :
    (cells (taken % size)).2 = phase size taken ↔ pending ≠ [] := by
  cases pending with
  | nil =>
    rw [holds.stale taken le_rfl (by omega)]
    simp
  | cons a rest => simp [holds.front]

end PhaseRing
