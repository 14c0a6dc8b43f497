import Kappara.Lib.Basic

/-! A byte queue kept as a chain of blocks.

Writers append whole blocks at the tail, readers copy a stretch out of the
middle, and the front is trimmed by freeing blocks and shortening the first
one that remains. Seen from outside the chain is its concatenation; each
operation below is stated as what it does to that list. -/

set_option autoImplicit false

namespace BlockChain

variable {α : Type}

abbrev Chain (α : Type) := List (List α)

def size : Chain α → Nat
  | [] => 0
  | block :: rest => block.length + size rest

/-- Copy up to want elements from offset skip on: whole blocks are skipped, the first block reached is
read from its own offset, later ones from their start. -/
def gather : Chain α → Nat → Nat → List α
  | [], _, _ => []
  | block :: rest, skip, want =>
    if want = 0 then []
    else if block.length ≤ skip then gather rest (skip - block.length) want
    else
      let taken := (block.drop skip).take want
      taken ++ gather rest 0 (want - taken.length)

/-- Drop n elements from the front. Blocks that are used up are freed, the next one is shortened;
nothing is freed once no element is left to drop. -/
def trim : Chain α → Nat → Chain α
  | [], _ => []
  | block :: rest, n =>
    if n = 0 then block :: rest
    else if block.length ≤ n then trim rest (n - block.length)
    else block.drop n :: rest

theorem size_eq (chain : Chain α) : size chain = chain.flatten.length := by
  induction chain with
  | nil => rfl
  | cons block rest ih => simp [size, ih]

theorem gather_eq (chain : Chain α) (skip want : Nat) :
    gather chain skip want = (chain.flatten.drop skip).take want := by
  induction chain generalizing skip want with
  | nil => simp [gather]
  | cons block rest ih =>
    rw [gather, List.flatten_cons]
    by_cases none : want = 0
    · simp [none]
    · rw [if_neg none]
      by_cases past : block.length ≤ skip
      · rw [if_pos past, ih, List.drop_append, List.drop_eq_nil_of_le past, List.nil_append]
      · have start : skip - block.length = 0 := by omega
        rw [if_neg past]
        simp only [ih, List.drop_append, start, List.take_append, List.length_take]
        congr 2
        omega

theorem trim_flatten (chain : Chain α) (n : Nat) : (trim chain n).flatten = chain.flatten.drop n := by
  induction chain generalizing n with
  | nil => simp [trim]
  | cons block rest ih =>
    rw [trim]
    by_cases done : n = 0
    · simp [done]
    · rw [if_neg done]
      by_cases whole : block.length ≤ n
      · rw [if_pos whole, ih, List.flatten_cons, List.drop_append, List.drop_eq_nil_of_le whole, List.nil_append]
      · have rest_zero : n - block.length = 0 := by omega
        rw [if_neg whole, List.flatten_cons, List.flatten_cons, List.drop_append, rest_zero, List.drop_zero]

theorem gather_length (chain : Chain α) (skip want : Nat) :
    (gather chain skip want).length = min want (size chain - skip) := by
  rw [gather_eq, List.length_take, List.length_drop, size_eq]

/-- No byte lies behind an empty block. -/
def Solid : Chain α → Prop
  | [] => True
  | block :: rest => (block = [] → size rest = 0) ∧ Solid rest

instance Solid.decidable [DecidableEq α] : (chain : Chain α) → Decidable (Solid chain)
  | [] => inferInstanceAs (Decidable True)
  | _ :: rest =>
    have := Solid.decidable rest
    inferInstanceAs (Decidable (_ ∧ _))

theorem Solid.trim {chain : Chain α} (n : Nat) (solid : Solid chain) : Solid (BlockChain.trim chain n) := by
  induction chain generalizing n with
  | nil => exact solid
  | cons block rest ih =>
    rw [BlockChain.trim]
    split
    · exact solid
    · split
      · exact ih _ solid.2
      next short =>
        refine ⟨fun empty => absurd (List.drop_eq_nil_iff.mp empty) short, solid.2⟩

theorem Solid.flatten {chain : Chain α} (solid : Solid chain) (head : chain.headD [] = []) : chain.flatten = [] := by
  cases chain with
  | nil => rfl
  | cons block rest =>
    rw [List.headD_cons] at head
    rw [head]
    exact List.eq_nil_of_length_eq_zero (size_eq rest ▸ solid.1 head)

end BlockChain
