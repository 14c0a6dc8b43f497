import Kappara.Lib.Links
import Kappara.Lib.Run

/-! The message queue of a queue_t (putq, putbq and getq of uts/os/io/streams.c). -/

set_option autoImplicit false

namespace Kappara.Putq

open Function (update update_of_ne)

variable {α : Type} [DecidableEq α]

-- q_first, q_last and the links b_next and b_prev, then q_count and QFULL.
structure QueueT (α : Type) where
  links : Links.Queue α
  count : Nat
  full : Bool
  hiwat : Int
  lowat : Int

/-- The sum over the blocks of a message, each given by the bytes between b_rptr and b_wptr. -/
def msgdsize (blocks : List Nat) : Nat := blocks.foldl (· + ·) 0

def putq (q : QueueT α) (mp : α) (blocks : List Nat) : QueueT α :=
  let count := q.count + msgdsize blocks
  { q with links := q.links.insertTail mp, count := count, full := q.full || decide (q.hiwat ≤ count) }

def putbq (q : QueueT α) (mp : α) (blocks : List Nat) : QueueT α :=
  { q with links := (q.links.flip.insertTail mp).flip, count := q.count + msgdsize blocks }

def getq (q : QueueT α) (msgs : α → List Nat) : Option α × QueueT α :=
  match q.links.head with
  | none => (none, q)
  | some mp =>
    let back := Links.redirect q.links.prev q.links.tail (q.links.next mp) none
    let count := q.count - msgdsize (msgs mp)
    (some mp, { q with
      links := ⟨q.links.next mp, back.2, update q.links.next mp none, update back.1 mp none⟩
      count := count
      full := q.full && !decide (count ≤ q.lowat) })

inductive Op (α : Type) where
  | putq (mp : α)
  | putbq (mp : α)
  | getq
  | modify (mp : α) (blocks : List Nat)

/-- Beside the queue and the blocks of the messages, the sequence that is queued, and whether it is full. -/
structure State (α : Type) where
  q : QueueT α
  msgs : α → List Nat
  queued : List α
  full : Bool

def State.total (s : State α) (l : List α) : Nat := (l.map fun mp => msgdsize (s.msgs mp)).sum

def step (s : State α) : Op α → Option (State α)
  | .putq mp => some { s with
      q := putq s.q mp (s.msgs mp)
      queued := s.queued ++ [mp]
      full := s.full || decide (s.q.hiwat ≤ s.total (s.queued ++ [mp])) }
  | .putbq mp => some { s with q := putbq s.q mp (s.msgs mp), queued := mp :: s.queued }
  | .getq => some { s with
      q := (getq s.q s.msgs).2
      queued := s.queued.tail
      full := s.full && !decide (s.total s.queued.tail ≤ s.q.lowat) }
  | .modify mp blocks => some { s with msgs := update s.msgs mp blocks }

-- Messages are not modified while queued, their links included.
def apart (s : State α) : Op α → Bool
  | .putq mp | .putbq mp | .modify mp _ => mp ∉ s.queued
  | .getq => true

structure Exact (s : State α) : Prop where
  lists : s.q.links.Lists s.queued
  count : s.q.count = s.total s.queued
  full : s.q.full = s.full
  -- A getq that finds no message does not touch QFULL.
  empty : s.queued = [] → s.full = true → s.q.lowat < 0

section Runs

variable {s s' : State α}

theorem Exact.getq (exact_ : Exact s) : (getq s.q s.msgs).1 = s.queued.head? ∧
    Exact { s with
      q := (getq s.q s.msgs).2
      queued := s.queued.tail
      full := s.full && !decide (s.total s.queued.tail ≤ s.q.lowat) } := by
  obtain ⟨lists, count, full, empty⟩ := exact_
  rw [Putq.getq, lists.forward.head]
  cases queued : s.queued with
  | nil =>
    rw [queued] at lists count
    have still : (s.full && !decide (s.total [] ≤ s.q.lowat)) = s.full := by
      cases set : s.full with
      | false => rfl
      | true => simpa [State.total] using empty queued set
    refine ⟨rfl, lists, count, ?_, fun _ both => empty queued (Bool.and_eq_true_iff.mp both).1⟩
    exact full.trans still.symm
  | cons mp rest =>
    rw [queued] at lists count
    have split : s.q.links.Lists ([] ++ mp :: rest) := lists
    have unlinked := split.unlink
    rw [Links.Queue.unlink, split.prev_eq] at unlinked
    have left : s.q.count - msgdsize (s.msgs mp) = s.total rest := by
      rw [count, State.total, List.map_cons, List.sum_cons, Nat.add_sub_cancel_left, State.total]
    rw [List.head?_cons, List.tail_cons]
    refine ⟨rfl, unlinked, left, ?_, ?_⟩
    · dsimp only
      rw [full, left]
    · rintro rfl both
      simpa [State.total] using (Bool.and_eq_true_iff.mp both).2

theorem Exact.step {op : Op α} (exact_ : Exact s) (allowed : apart s op = true) (made : step s op = some s') :
    Exact s' := by
  cases op with
  | putq mp =>
    cases made
    have count : s.q.count + msgdsize (s.msgs mp) = s.total (s.queued ++ [mp]) := by
      simp [exact_.count, State.total]
    refine ⟨exact_.lists.insertTail (of_decide_eq_true allowed), count, ?_, fun none => by simp at none⟩
    rw [← count, ← exact_.full]
    rfl
  | putbq mp =>
    cases made
    have turned := exact_.lists.flip.insertTail (mt List.mem_reverse.mp (of_decide_eq_true allowed))
    refine ⟨?_, ?_, exact_.full, fun none => by cases none⟩
    · simpa [putbq] using turned.flip
    · simp [putbq, exact_.count, State.total, Nat.add_comm]
  | getq =>
    cases made
    exact exact_.getq.2
  | modify mp blocks =>
    cases made
    have absent : mp ∉ s.queued := of_decide_eq_true allowed
    refine ⟨exact_.lists, exact_.count.trans ?_, exact_.full, exact_.empty⟩
    refine congrArg List.sum (List.map_congr_left fun mp' inside => ?_)
    dsimp only
    rw [update_of_ne (ne_of_mem_of_not_mem inside absent)]

def Empty (s : State α) : Prop :=
  s.q.links.Lists [] ∧ s.q.count = 0 ∧ s.q.full = false ∧ s.queued = [] ∧ s.full = false

/-- The queue is the sequence of what was put and not yet taken, with its count and its flag. -/
theorem queue_is_sequence (s : State α) (reached : Run.Reach step (fun s op => apart s op = true) Empty s) :
    s.q.links.Lists s.queued ∧ s.q.count = s.total s.queued ∧ s.q.full = s.full ∧
      (getq s.q s.msgs).1 = s.queued.head? := by
  have exact_ : Exact s := by
    apply reached.invariant
    · rintro s ⟨lists, count, clear, none, clear'⟩
      refine ⟨none ▸ lists, ?_, clear.trans clear'.symm, fun _ set => ?_⟩
      · rw [count, none]
        rfl
      · rw [clear'] at set
        cases set
    · exact fun _ _ _ => Exact.step
  exact ⟨exact_.lists, exact_.count, exact_.full, exact_.getq.1⟩

end Runs

/-- What putq, putbq and getq do to a sequence of messages. -/
inductive Moves {β : Type} (l : List β) : List β → Prop where
  | stay : Moves l l
  | putq (x : β) : Moves l (l ++ [x])
  | putbq (x : β) : Moves l (x :: l)
  | getq : Moves l l.tail

/-- The messages of a queue_t, after some run of the three calls, have these contents. -/
def Carries {β : Type} (l : List β) : Prop := ∃ (t : State Nat) (content : Nat → Option β),
  Run.Reach step (fun s op => apart s op = true) Empty t ∧ t.queued.map content = l.map some

theorem Carries.move {β : Type} {l l' : List β} (carries : Carries l) (moves : Moves l l') : Carries l' := by
  obtain ⟨t, content, reached, holds⟩ := carries
  -- a message that is put is at an address the queue does not have
  obtain ⟨mp, fresh⟩ := Infinite.exists_notMem_finset t.queued.toFinset
  rw [List.mem_toFinset] at fresh
  have others (x : β) : t.queued.map (update content mp (some x)) = l.map some := by
    rw [← holds]
    exact List.map_congr_left fun other member => update_of_ne (ne_of_mem_of_not_mem member fresh) _ _
  cases moves with
  | stay => exact ⟨t, content, reached, holds⟩
  | putq x => exact ⟨_, update content mp x, .next (a := .putq mp) reached (decide_eq_true fresh) rfl, by simp [others]⟩
  | putbq x =>
    exact ⟨_, update content mp x, .next (a := .putbq mp) reached (decide_eq_true fresh) rfl, by simp [others]⟩
  | getq => exact ⟨_, content, .next (a := .getq) reached rfl rfl, by simp [List.map_tail, holds]⟩

/-- A sequence that starts empty and is moved in these ways alone is at any time what a queue_t carries. -/
theorem carries_of_moves {S A β : Type} {move : S → A → Option S} {ok : S → A → Prop} {Start : S → Prop} {s : S}
    (rq : S → List β) (empty : ∀ s, Start s → rq s = []) (moves : ∀ s a s', move s a = some s' → Moves (rq s) (rq s'))
    (reached : Run.Reach move ok Start s) : Carries (rq s) := by
  induction reached with
  | start starts =>
    rw [empty _ starts]
    exact ⟨⟨⟨⟨none, none, fun _ => none, fun _ => none⟩, 0, false, 0, 0⟩, fun _ => [], [], false⟩, fun _ => none,
      .start ⟨⟨rfl, rfl, List.nodup_nil⟩, rfl, rfl, rfl, rfl⟩, rfl⟩
  | next _ _ made ih => exact ih.move (moves _ _ _ made)

def twoMessages : State Bool := ⟨⟨⟨none, none, fun _ => none, fun _ => none⟩, 0, false, 3, 1⟩, fun _ => [1, 0, 1],
    [], false⟩

theorem queue_is_sequence_full : ∃ s : State Bool, s.q.full = true ∧ s.queued = [true] ∧ s.q.links.Lists [true] := by
  obtain ⟨s, -, ⟨full, queued⟩, lists, -⟩ := Run.Reach.found_with (P := fun s => s.q.full = true ∧ s.queued = [true])
    queue_is_sequence [.putq false, .putq true, .getq] (s := twoMessages) ⟨⟨rfl, rfl, List.nodup_nil⟩, rfl, rfl, rfl,
      rfl⟩ (by decide +kernel)
  exact ⟨s, full, queued, queued ▸ lists⟩

end Kappara.Putq
