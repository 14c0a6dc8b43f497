import Mathlib.Data.List.Basic
import Kappara.Streams.Putq

/-! getmsg at a stream head by one consumer (stream_getmsg of uts/os/io/stream_head.c, putq, putbq
and getq of uts/os/io/streams.c), every allocation granted.

A message is an optional control part before at most one data block. A block comes from kmalloc,
so the casts of its length to int change nothing. -/

set_option autoImplicit false

namespace Kappara.Getmsg

/-- A message with the number of its arrival, or what a call returns of it (none for the length -1). -/
structure Msg where
  id : Nat
  ctl : Option (List Byte)
  data : Option (List Byte)
  deriving DecidableEq

def Msg.copied (mp : Msg) (ctl data : Nat) : Msg :=
  { mp with ctl := mp.ctl.map (·.take ctl), data := mp.data.map (·.take data) }

def Msg.leftover (mp : Msg) (data : Nat) : Option Msg :=
  (mp.data.filter (data < ·.length)).map fun bytes => { mp with data := some (bytes.drop data) }

-- The consumer has taken a message and not yet put its rest back while held is set.
structure State where
  rq : List Msg
  held : Option Msg
  arrived : List Msg
  returned : List Msg
  deriving DecidableEq

def start : State := ⟨[], none, [], []⟩

inductive Event where
  | putq (ctl data : Option (List Byte))
  | getmsg (ctl data : Nat)
  | putbq

def step (s : State) : Event → Option State
  | .putq ctl data =>
    let mp := ⟨s.arrived.length, ctl, data⟩
    some { s with rq := s.rq ++ [mp], arrived := s.arrived ++ [mp] }
  | .getmsg ctl data =>
    match s.held, s.rq with
    | none, mp :: rest =>
      some { s with rq := rest, held := mp.leftover data, returned := s.returned ++ [mp.copied ctl data] }
    | _, _ => none
  | .putbq => s.held.map fun mp => { s with rq := mp :: s.rq, held := none }

-- The control part of the message that is taken fits.
def covers (s : State) : Event → Prop
  | .getmsg ctl _ => ∀ mp ∈ s.rq.head?, ∀ bytes ∈ mp.ctl, bytes.length ≤ ctl
  | _ => True

instance (s : State) (e : Event) : Decidable (covers s e) := by
  cases e <;> unfold covers <;> infer_instance

def Msg.bytes (mp : Msg) : List (Nat × Byte) := (mp.data.getD []).map (mp.id, ·)

def Own (arrived : List Msg) (mp : Msg) : Prop := arrived[mp.id]?.map (·.ctl) = some mp.ctl

structure Inv (s : State) : Prop where
  bytes : s.returned.flatMap Msg.bytes ++ (s.held.toList ++ s.rq).flatMap Msg.bytes = s.arrived.flatMap Msg.bytes
  own : ∀ mp ∈ s.returned ++ (s.held.toList ++ s.rq), Own s.arrived mp

theorem Msg.bytes_split (mp : Msg) (ctl data : Nat) :
    (mp.copied ctl data).bytes ++ (mp.leftover data).toList.flatMap Msg.bytes = mp.bytes := by
  unfold Msg.copied Msg.leftover Msg.bytes
  cases mp.data with
  | none => rfl
  | some bytes =>
    by_cases more : data < bytes.length
    · simp [Option.filter, more]
    · simp [more, List.take_of_length_le (Nat.not_lt.mp more)]

theorem Inv.step {s s' : State} {e : Event} (inv : Inv s) (fits : covers s e) (made : Getmsg.step s e = some s') :
    Inv s' := by
  cases e with
  | putq ctl data =>
    cases made
    constructor
    · simp [← inv.bytes]
    · intro mp member
      rw [← List.append_assoc, ← List.append_assoc, List.mem_append, List.append_assoc, List.mem_singleton] at member
      unfold Own
      rcases member with old | rfl
      · obtain ⟨m, there, same⟩ := Option.map_eq_some_iff.mp (inv.own mp old)
        rw [List.getElem?_append_left (List.getElem?_eq_some_iff.mp there).1, there, ← same]
        rfl
      · simp
  | getmsg ctl data =>
    unfold Getmsg.step at made
    dsimp only at made
    split at made
    next mp rest none queued =>
      cases made
      obtain ⟨bytes, own⟩ := inv
      rw [none, queued] at bytes own
      have whole : mp.ctl.map (·.take ctl) = mp.ctl := by
        cases part : mp.ctl with
        | none => rfl
        | some control => exact congrArg some (List.take_of_length_le (fits mp (by rw [queued]; rfl) control part))
      have mine : Own s.arrived mp := own mp (by simp)
      constructor
      · simp [← bytes, ← mp.bytes_split ctl data]
      · intro other member
        rw [List.append_assoc, List.mem_append, List.mem_append, List.mem_append] at member
        rcases member with old | new | back | queued
        · exact own other (List.mem_append_left _ old)
        · obtain rfl := List.mem_singleton.mp new
          unfold Own Msg.copied
          rw [whole]
          exact mine
        · obtain ⟨data', _, rfl⟩ := Option.map_eq_some_iff.mp (Option.mem_toList.mp back)
          exact mine
        · exact own other (by simp [queued])
    · cases made
  | putbq =>
    obtain ⟨mp, here, rfl⟩ := Option.map_eq_some_iff.mp made
    have bytes := inv.bytes
    have own := inv.own
    rw [here] at bytes own
    exact ⟨bytes, own⟩

/-- The data returned is the data that arrived, in order and as far as it goes, and each piece has
the control part of the message its data is from. -/
theorem getmsg_conserves_data {s : State} (reached : Run.Reach step covers (· = start) s) :
    s.returned.flatMap Msg.bytes <+: s.arrived.flatMap Msg.bytes ∧ ∀ mp ∈ s.returned, Own s.arrived mp := by
  have inv : Inv s := by
    apply reached.invariant
    · rintro _ rfl
      exact ⟨rfl, by simp [start]⟩
    · exact fun _ _ _ inv => inv.step
  exact ⟨⟨_, inv.bytes⟩, fun mp member => inv.own mp (List.mem_append_left _ member)⟩

theorem step_moves {s s' : State} {e : Event} (made : step s e = some s') : Putq.Moves s.rq s'.rq := by
  cases e with
  | putq ctl data =>
    cases made
    exact .putq _
  | getmsg ctl data =>
    rw [step] at made
    split at made
    next queued =>
      cases made
      rw [queued]
      exact .getq
    · cases made
  | putbq =>
    obtain ⟨mp, -, rfl⟩ := Option.map_eq_some_iff.mp made
    exact .putbq mp

theorem rq_carried {s : State} (reached : Run.Reach step covers (· = start) s) : Putq.Carries s.rq :=
  Putq.carries_of_moves State.rq (fun s started => by rw [started]; rfl) (fun _ _ _ => step_moves) reached

theorem getmsg_conserves_two_pieces : ∃ s : State, s.returned = [⟨0, some [1], some [7, 8]⟩, ⟨0, some [1], some [9]⟩] ∧
    s.returned.flatMap Msg.bytes <+: s.arrived.flatMap Msg.bytes ∧ ∀ mp ∈ s.returned, Own s.arrived mp := by
  obtain ⟨s, -, same, conserved⟩ := Run.Reach.found_with
    (P := fun s => s.returned = [⟨0, some [1], some [7, 8]⟩, ⟨0, some [1], some [9]⟩]) (fun s => getmsg_conserves_data)
    [.putq (some [1]) (some [7, 8, 9]), .getmsg 4 2, .putq none (some [5]), .putbq, .getmsg 4 2] rfl (by decide)
  exact ⟨s, same, conserved⟩

end Kappara.Getmsg
