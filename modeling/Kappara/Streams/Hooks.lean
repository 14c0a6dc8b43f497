import Kappara.Streams.Topology

/-! The open and close procedures of drivers and modules (the qi_qopen calls of stream_build and
do_ipush and the qi_qclose calls of stream_close in uts/os/io/stream_head.c, dl_qopen and dl_qclose of
uts/os/net/dl.c).

The procedures are given by the number of the pair, so that any driver or module may be behind it. An
autopush is a push of its own. -/

set_option autoImplicit false

namespace Kappara.Topology

open Function (update)

structure Hooks (σ : Type) where
  qopen : Nat → Option (σ → Int × σ)
  qclose : Nat → Option (σ → σ)

/-- With what qi_qopen answered for each pair, 0 for a pair without one. -/
structure Kernel (σ : Type) where
  sys : State
  drivers : σ
  answers : Nat → Int

/-- The pair whose qi_qopen a call runs. -/
def opened (s : State) : Op → Option Nat
  | .open_ _ => some (s.fresh + 1)
  | .push h => (s.devices h).map fun _ => s.fresh
  | .pipePush i _ => (s.pipes i).map fun _ => s.fresh
  | _ => none

/-- The pairs whose qi_qclose a call runs: do_ipop runs none, nor does the close of a pipe. -/
def closed (s : State) : Op → List Nat
  | .close h => (s.devices h).elim [] fun D => if 1 < D.refs then [] else D.mods ++ [D.drv]
  | _ => []

section Calls

variable {σ : Type} (hooks : Hooks σ)

def call (k : Kernel σ) (op : Op) : Int × Kernel σ :=
  let sys := (step k.sys op).getD k.sys
  match opened k.sys op with
  | some n =>
    let (answer, drivers) := (hooks.qopen n).elim (0, k.drivers) fun qopen => qopen k.drivers
    (0, ⟨sys, drivers, update k.answers n answer⟩)
  | none =>
    (0, { k with
      sys, drivers := (closed k.sys op).foldl (fun s n => (hooks.qclose n).elim s fun qclose => qclose s) k.drivers })

def visits (k : Kernel σ) : List Op → List (Kernel σ × Op)
  | [] => []
  | op :: rest => (k, op) :: visits (call hooks k op).2 rest

def Refused (k : Kernel σ) (op : Op) : Prop := ∃ n ∈ opened k.sys op, (call hooks k op).2.answers n < 0

/-- A refused call fails and leaves its pair unlinked, and qi_qclose runs for no pair that was refused. -/
def Clean (k : Kernel σ) (op : Op) : Prop :=
  (∀ n ∈ opened k.sys op, (call hooks k op).2.answers n < 0 → (call hooks k op).1 = -1 ∧
    ¬ Live (call hooks k op).2.sys n) ∧ ∀ n ∈ closed k.sys op, (hooks.qclose n).isSome → 0 ≤ k.answers n

variable {hooks} {k : Kernel σ} {op : Op}

theorem call_ret (k : Kernel σ) (op : Op) : (call hooks k op).1 = 0 := by
  unfold call
  split <;> rfl

theorem call_accepted (accepted : ∀ n, 0 ≤ k.answers n) (taken : ¬ Refused hooks k op) (n : Nat) :
    0 ≤ (call hooks k op).2.answers n := by
  cases pair : opened k.sys op with
  | none =>
    unfold call
    rw [pair]
    exact accepted n
  | some m =>
    by_cases same : n = m
    · rw [same]
      exact Int.not_lt.mp fun low => taken ⟨m, pair, low⟩
    · unfold call
      rw [pair]
      exact le_of_le_of_eq (accepted n) (Function.update_of_ne same ..).symm

theorem visits_clean (accepted : ∀ n, 0 ≤ k.answers n) (ops : List Op)
    (taken : ∀ x ∈ visits hooks k ops, ¬ Refused hooks x.1 x.2) : ∀ x ∈ visits hooks k ops, Clean hooks x.1 x.2 := by
  induction ops generalizing k with
  | nil => exact fun _ none => by cases none
  | cons op rest ih =>
    obtain ⟨first, later⟩ := List.forall_mem_cons.mp taken
    have clean : Clean hooks k op := ⟨fun n pair low => absurd ⟨n, pair, low⟩ first, fun n _ _ => accepted n⟩
    exact List.forall_mem_cons.mpr ⟨clean, ih (call_accepted accepted first) later⟩

/-- From boot on, refusals fail and are forgotten exactly in the runs in which nothing is refused. -/
theorem refused_open_fails_iff (hooks : Hooks σ) (drivers : σ) (ops : List Op) :
    (∀ x ∈ visits hooks ⟨boot, drivers, fun _ => 0⟩ ops, Clean hooks x.1 x.2) ↔
      ∀ x ∈ visits hooks ⟨boot, drivers, fun _ => 0⟩ ops, ¬ Refused hooks x.1 x.2 := by
  constructor
  · rintro clean x visited ⟨n, pair, low⟩
    have failed := ((clean x visited).1 n pair low).1
    rw [call_ret] at failed
    cases failed
  · exact visits_clean (fun _ => Int.le_refl 0) ops

end Calls

section Datalink

/-- The pair in each used slot of the devices, the slot q_ptr of a pair names once dl_qopen has set it,
and the writes of dl_qclose through a q_ptr that still names the stdata. -/
structure Dl where
  opens : List (List (Option Nat))
  ptr : Nat → Option (Nat × Nat)
  wild : Nat

def dlQopen (minor rq : Nat) (s : Dl) : Int × Dl :=
  match s.opens[minor]?.bind fun slots => slots.idxOf? none with
  | none => (-1, s)
  | some i =>
    (0, { s with opens := s.opens.modify minor (·.set i (some rq)), ptr := update s.ptr rq (some (minor, i)) })

def dlQclose (rq : Nat) (s : Dl) : Dl :=
  match s.ptr rq with
  | none => { s with wild := s.wild + 1 }
  | some (minor, i) => { s with opens := s.opens.modify minor (·.set i none) }

def dlHooks : Hooks Dl := ⟨fun rq => some (dlQopen 0 rq), fun rq => some (dlQclose rq)⟩

/-- After the given calls on a device both of whose slots were free. -/
def dlAfter (ops : List Op) : Kernel Dl :=
  ops.foldl (fun k op => (call dlHooks k op).2) ⟨boot, ⟨[[none, none]], fun _ => none, 0⟩, fun _ => 0⟩

/-- The third open is refused and succeeds, and its close writes through the stdata. -/
theorem third_datalink_open :
    (call dlHooks (dlAfter [.open_ false, .open_ false]) (.open_ false)).1 = 0 ∧
      (dlAfter [.open_ false, .open_ false, .open_ false]).answers 5 = -1 ∧
      ((dlAfter [.open_ false, .open_ false, .open_ false]).sys.devices 4).isSome = true ∧
      (dlAfter [.open_ false, .open_ false, .open_ false, .close 4]).drivers.wild = 1 := by
  decide

end Datalink

end Kappara.Topology
