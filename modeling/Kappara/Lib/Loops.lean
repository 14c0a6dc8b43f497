import Kappara.Lib.Basic

/-! Computations that may fail: that one succeeds with a result of a given kind,
counted loops over such computations, and array positions computed in signed
arithmetic. -/

set_option autoImplicit false

namespace Loops

variable {S T : Type}

/-- The computation succeeds, with a result that satisfies P. -/
def Gives (made : Option S) (P : S → Prop) : Prop := ∃ s, made = some s ∧ P s

variable {P : S → Prop} {s : S} {n : Nat} {i : Int} {body : Int → S → Option S}

theorem Gives.here (holds : P s) : Gives (some s) P := ⟨s, rfl, holds⟩

theorem Gives.bind {made : Option S} {Q : T → Prop} {next : S → Option T} (first : Gives made P)
    (rest : ∀ s, P s → Gives (next s) Q) : Gives (made >>= next) Q := by
  obtain ⟨s, rfl, holds⟩ := first
  exact rest s holds

theorem Gives.mono {made : Option S} {Q : S → Prop} (gives : Gives made P) (weaker : ∀ s, P s → Q s) :
    Gives made Q := by
  obtain ⟨s, rfl, holds⟩ := gives
  exact .here (weaker s holds)

theorem Gives.ite {c : Prop} [Decidable c] {first second : Option S} (yes : c → Gives first P)
    (no : ¬ c → Gives second P) : Gives (if c then first else second) P := by
  by_cases h : c
  · rw [if_pos h]
    exact yes h
  · rw [if_neg h]
    exact no h

/-- The element of an array of n elements at a signed position; none outside it. -/
def index (n : Nat) (i : Int) : Option (Fin n) :=
  if h : 0 ≤ i ∧ i < n then some ⟨i.toNat, by omega⟩ else none

theorem index_gives (low : 0 ≤ i) (high : i < n) : Gives (index n i) fun k => (k : Int) = i :=
  ⟨_, dif_pos ⟨low, high⟩, Int.toNat_of_nonneg low⟩

theorem index_none (outside : i < 0 ∨ n ≤ i) : index n i = none :=
  dif_neg (by omega)

def up (body : Int → S → Option S) : Int → Nat → S → Option S
  | _, 0, s => some s
  | i, n + 1, s => (body i s).bind (up body (i + 1) n)

def down (body : Int → S → Option S) : Int → Nat → S → Option S
  | _, 0, s => some s
  | i, n + 1, s => (body i s).bind (down body (i - 1) n)

theorem up_counts {Inv : Int → S → Prop} (round : ∀ j s, i ≤ j → j < i + n → Inv j s → Gives (body j s) (Inv (j + 1)))
    (first : Inv i s) : Gives (up body i n s) (Inv (i + n)) := by
  induction n generalizing i s with
  | zero => exact .here (by simpa using first)
  | succ n ih =>
    refine (round i s (by omega) (by omega) first).bind fun s' kept => ?_
    rw [Int.natCast_succ, Int.add_comm n, ← Int.add_assoc]
    exact ih (fun j s low high => round j s (by omega) (by omega)) kept

theorem up_keeps {Inv : S → Prop} (round : ∀ j s, i ≤ j → j < i + n → Inv s → Gives (body j s) Inv) (first : Inv s) :
    Gives (up body i n s) Inv :=
  up_counts round first

theorem down_keeps {Inv : S → Prop} (round : ∀ j s, i - n < j → j ≤ i → Inv s → Gives (body j s) Inv) (first : Inv s) :
    Gives (down body i n s) Inv := by
  induction n generalizing i s with
  | zero => exact .here first
  | succ n ih =>
    refine (round i s (by omega) (by omega) first).bind fun s' kept => ?_
    exact ih (fun j s low high => round j s (by omega) (by omega)) kept

theorem up_fails {j : Int} (stuck : ∀ s, body j s = none) (low : i ≤ j) (high : j < i + n) : up body i n s = none := by
  induction n generalizing i s with
  | zero => omega
  | succ n ih =>
    rw [up]
    by_cases here : i = j
    · rw [here, stuck]
      rfl
    · cases body i s with
      | none => rfl
      | some s' => exact ih (by omega) (by omega)

theorem down_fails (stuck : ∀ s, body i s = none) (some_ : 0 < n) : down body i n s = none := by
  obtain ⟨n, rfl⟩ := Nat.exists_eq_succ_of_ne_zero some_.ne'
  rw [down, stuck]
  rfl

section Feed

variable {A B : Type}

/-- A loop that carries a state and collects what its rounds put out. -/
def feed (round : S → A → S × List B) : S → List A → S × List B
  | s, [] => (s, [])
  | s, x :: rest => ((feed round (round s x).1 rest).1, (round s x).2 ++ (feed round (round s x).1 rest).2)

variable (round : S → A → S × List B)

theorem feed_append (s : S) (first second : List A) : feed round s (first ++ second) =
    ((feed round (feed round s first).1 second).1,
    (feed round s first).2 ++ (feed round (feed round s first).1 second).2) := by
  induction first generalizing s with
  | nil => rfl
  | cons x rest ih => simp only [List.cons_append, feed, ih, List.append_assoc]

/-- It does not matter where the input is cut. -/
theorem feed_flatten (s : S) (blocks : List (List A)) : feed (feed round) s blocks = feed round s blocks.flatten := by
  induction blocks generalizing s with
  | nil => rfl
  | cons block rest ih => rw [List.flatten_cons, feed_append, feed, ih]

end Feed

end Loops
