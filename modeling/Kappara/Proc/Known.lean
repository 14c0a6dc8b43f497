import Kappara.Proc.Tids

/-! What wait and kill know of the threads.

A run is followed together with the ids given out, the exits in the order of their calls,
and whether the id a caller waits for was given out when it called. As long as the counter
of the ids has not wrapped, the table has the threads whose id is below 256 and no others,
and the status table has, at each index, the last exit of that index. -/

set_option autoImplicit false

namespace Kappara.Proc

open Signal (Signo has)
open Function (update update_cases update_of_ne update_self)

variable {s s' : Sys} {a b : Nat} {k k' : Thread} {x : Tid} {sig : Signo}

structure Audit where
  sys : Sys
  given : List Tid
  exits : List (Tid × Int)
  known : Nat → Bool

namespace Audit

def step (t : Audit) (event : Event) : Option Audit :=
  (Proc.step t.sys event).map fun s' =>
    match event with
    | .create _ _ => { t with sys := s', given := t.sys.nextTid :: t.given }
    | .exit a status =>
      { t with sys := s', exits := ((t.sys.threads a).map fun k => (k.tid, status)).toList ++ t.exits }
    | .wait a tid => { t with sys := s', known := update t.known a (t.given.contains tid) }
    | _ => { t with sys := s' }

def counted (t : Audit) : Event → Prop
  | .create _ _ => t.sys.nextTid ≠ 0
  | _ => True

instance (t : Audit) : (event : Event) → Decidable (t.counted event)
  | .create _ _ => inferInstanceAs (Decidable (t.sys.nextTid ≠ 0))
  | .setpgid .. | .setsid _ | .kill .. | .signalPgrp .. | .deliver .. | .exit .. | .dead _ | .reap _
  | .wait .. | .check _
  | .read _ => .isTrue trivial

def start : Audit := ⟨booted, [], [], fun _ => false⟩

def Booted (t : Audit) : Prop := t = start

end Audit

def Live (s : Sys) (x : Tid) : Prop := ∃ a k, s.threads a = some k ∧ k.tid = x ∧ k.dead = false

def lastExit (exits : List (Tid × Int)) (i : Fin 64) : Option (Tid × Int) := exits.find? fun e => exitIndex e.1 = i

def Thread.ident (k : Thread) : Tid × Bool × Option Int := (k.tid, k.dead, k.exitStatus)

def Wait.tid : Wait → Tid
  | .checking x | .asleep x | .reading x => x

def Wait.found : Wait → Bool
  | .reading _ => true
  | .checking _ | .asleep _ => false

/-- The id a thread waits for, and whether it has found the thread gone. -/
def Thread.target (k : Thread) : Option (Tid × Bool) := k.wait.map fun w => (w.tid, w.found)

structure Sound (t : Audit) : Prop where
  fresh : ∀ x ∈ t.given, x ≠ 0 ∧ (t.sys.nextTid = 0 ∨ x < t.sys.nextTid)
  mine : ∀ a k, t.sys.threads a = some k → k.tid = 0 ∨ k.tid ∈ t.given
  unique : ∀ a b k k', t.sys.threads a = some k → t.sys.threads b = some k' → k.tid = k'.tid → a = b
  listed : ∀ a k, t.sys.threads a = some k → ∀ small : k.tid.toNat < 256, t.sys.tidTable ⟨k.tid.toNat, small⟩ = some a
  entry : ∀ i a, t.sys.tidTable i = some a → ∃ k, t.sys.threads a = some k ∧ k.tid.toNat = i
  dead : ∀ a k, t.sys.threads a = some k → k.dead = true → k.exitStatus.isSome = true
  exited : ∀ a k, t.sys.threads a = some k → ∀ v, k.exitStatus = some v ↔ (k.tid, v) ∈ t.exits
  gone : ∀ x ∈ t.given, (∃ a k, t.sys.threads a = some k ∧ k.tid = x) ∨ ∃ v, (x, v) ∈ t.exits
  once : ∀ x v v', (x, v) ∈ t.exits → (x, v') ∈ t.exits → v = v'
  issued : ∀ x v, (x, v) ∈ t.exits → x = 0 ∨ x ∈ t.given
  table : ∀ i, t.sys.exitTab i = (lastExit t.exits i).getD (0, 0)

section Frame

/-- The tables stay, and of every thread what g says. -/
structure Same {β : Type} (g : Thread → β) (s s' : Sys) : Prop where
  kept : ∀ a, (s'.threads a).map g = (s.threads a).map g
  nextTid : s'.nextTid = s.nextTid
  tidTable : s'.tidTable = s.tidTable
  exitTab : s'.exitTab = s.exitTab

variable {β γ : Type} {g : Thread → β} {h : Thread → γ}

theorem Same.refl (g : Thread → β) (s : Sys) : Same g s s := ⟨fun _ => rfl, rfl, rfl, rfl⟩

theorem Same.trans {s₁ s₂ s₃ : Sys} (first : Same g s₁ s₂) (second : Same g s₂ s₃) : Same g s₁ s₃ :=
  ⟨fun a => (second.kept a).trans (first.kept a), second.nextTid.trans first.nextTid,
    second.tidTable.trans first.tidTable, second.exitTab.trans first.exitTab⟩

theorem Same.symm (same : Same g s s') : Same g s' s :=
  ⟨fun a => (same.kept a).symm, same.nextTid.symm, same.tidTable.symm, same.exitTab.symm⟩

theorem Same.back (same : Same g s s') (here : s'.threads a = some k') : ∃ k, s.threads a = some k ∧ g k' = g k := by
  have kept := same.kept a
  rw [here] at kept
  cases there : s.threads a with
  | none =>
    rw [there] at kept
    cases kept
  | some k =>
    rw [there] at kept
    exact ⟨k, rfl, Option.some.inj kept⟩

theorem Same.weaken {φ : β → γ} (same : Same g s s') (less : ∀ k, h k = φ (g k)) : Same h s s' := by
  refine ⟨fun a => ?_, same.nextTid, same.tidTable, same.exitTab⟩
  have kept := congrArg (Option.map φ) (same.kept a)
  simpa only [Option.map_map, Function.comp_def, ← less] using kept

theorem Same.modify {f : Thread → Thread} (kept : ∀ k, g (f k) = g k) (a : Nat) : Same g s (s.modify a f) := by
  refine ⟨fun b => ?_, rfl, rfl, rfl⟩
  by_cases same : b = a
  · subst same
    rw [modify_self]
    cases s.threads b with
    | none => rfl
    | some k => exact congrArg some (kept k)
  · rw [modify_other s f same]

theorem ident_eq (same : k'.ident = k.ident) : k'.tid = k.tid ∧ k'.dead = k.dead ∧ k'.exitStatus = k.exitStatus := by
  simpa [Thread.ident] using same

/-- The threads keep their ids, and the numbers given out and their table stay. -/
theorem Sound.carry {t : Audit} {exits : List (Tid × Int)} {known : Nat → Bool} (sound : Sound t)
    (same : Same Thread.tid t.sys { s' with exitTab := t.sys.exitTab })
    (dead : ∀ a k, s'.threads a = some k → k.dead = true → k.exitStatus.isSome = true)
    (exited : ∀ a k, s'.threads a = some k → ∀ v, k.exitStatus = some v ↔ (k.tid, v) ∈ exits)
    (more : ∀ x v, (x, v) ∈ t.exits → (x, v) ∈ exits) (once : ∀ x v v', (x, v) ∈ exits → (x, v') ∈ exits → v = v')
    (issued : ∀ x v, (x, v) ∈ exits → x = 0 ∨ x ∈ t.given)
    (table : ∀ i, s'.exitTab i = (lastExit exits i).getD (0, 0)) : Sound ⟨s', t.given, exits, known⟩ := by
  refine ⟨same.nextTid ▸ sound.fresh, ?_, ?_, ?_, ?_, dead, exited, ?_, once, issued, table⟩
  · intro a k' here
    obtain ⟨k, there, tid⟩ := same.back here
    rw [tid]
    exact sound.mine a k there
  · intro a b k k' first second equal
    obtain ⟨k₁, there₁, tid₁⟩ := same.back first
    obtain ⟨k₂, there₂, tid₂⟩ := same.back second
    exact sound.unique a b k₁ k₂ there₁ there₂ (by rw [← tid₁, ← tid₂, equal])
  · intro a k' here small
    obtain ⟨k, there, tid⟩ := same.back here
    have listed := sound.listed a k there (tid ▸ small)
    simpa only [tid, ← same.tidTable] using listed
  · intro i a entry
    obtain ⟨k, there, index⟩ := sound.entry i a (same.tidTable ▸ entry)
    obtain ⟨k', here, tid⟩ := same.symm.back there
    exact ⟨k', here, by rw [← tid, index]⟩
  · intro x given
    rcases sound.gone x given with ⟨a, k, there, equal⟩ | ⟨v, exited⟩
    · obtain ⟨k', here, tid⟩ := same.symm.back there
      exact .inl ⟨a, k', here, tid.symm.trans equal⟩
    · exact .inr ⟨v, more x v exited⟩

theorem Sound.frame {t : Audit} {known : Nat → Bool} (sound : Sound t) (same : Same Thread.ident t.sys s') :
    Sound ⟨s', t.given, t.exits, known⟩ := by
  have tids : Same Thread.tid t.sys s' := same.weaken (φ := Prod.fst) fun _ => rfl
  refine sound.carry { tids with exitTab := rfl } ?_ ?_ (fun _ _ exited => exited) sound.once sound.issued
    (same.exitTab ▸ sound.table)
  · intro a k' here dead
    obtain ⟨k, there, ident⟩ := same.back here
    obtain ⟨_, died, status⟩ := ident_eq ident
    rw [status]
    exact sound.dead a k there (died ▸ dead)
  · intro a k' here v
    obtain ⟨k, there, ident⟩ := same.back here
    obtain ⟨tid, _, status⟩ := ident_eq ident
    rw [status, tid]
    exact sound.exited a k there v

theorem Same.live (same : Same Thread.ident s s') (live : Live s' x) : Live s x := by
  obtain ⟨a, k', here, tid, alive⟩ := live
  obtain ⟨k, there, ident⟩ := same.back here
  obtain ⟨tid', dead, _⟩ := ident_eq ident
  exact ⟨a, k, there, tid' ▸ tid, dead ▸ alive⟩

/-- All that a signal or a change of group leaves alone. -/
def Thread.stable (k : Thread) : (Tid × Bool × Option Int) × Option (Tid × Bool) := (k.ident, k.target)

theorem Thread.wake_stable (k : Thread) : k.wake.stable = k.stable := by
  rw [wake]
  split
  next tid asleep => simp [stable, ident, target, asleep, Wait.tid, Wait.found]
  · rfl

end Frame

section Calls

section

variable {β : Type} {g : Thread → β} {sig : Signo} {pgrp : BitVec 32} (kept : ∀ k, g (k.signal sig) = g k)

include kept

theorem kthreadSignal_same (s : Sys) (a : Nat) : Same g s (kthreadSignal s a sig).2 := by
  rw [kthreadSignal]
  split
  · exact .refl _ s
  · exact Same.modify kept a

theorem signalAt_same (out : Int × Sys) (i : Fin 256) : Same g out.2 (signalAt pgrp sig out i).2 := by
  rw [signalAt]
  split
  · exact .refl _ _
  · split
    · exact kthreadSignal_same kept _ _
    · exact .refl _ _

theorem foldl_signalAt_same (l : List (Fin 256)) (out : Int × Sys) :
    Same g out.2 (l.foldl (signalAt pgrp sig) out).2 := by
  induction l generalizing out with
  | nil => exact .refl _ _
  | cons i rest ih => exact (signalAt_same kept out i).trans (ih _)

theorem kthreadSignalPgrp_same (s : Sys) : Same g s (kthreadSignalPgrp s pgrp sig).2 := by
  rw [kthreadSignalPgrp]
  split
  · exact .refl _ s
  · exact foldl_signalAt_same kept _ (0, s)

end

def Thread.member (k : Thread) : Bool × BitVec 32 := (k.dead, k.pgrp)

theorem Thread.signal_member (sig : Signo) (k : Thread) : (k.signal sig).member = k.member := by
  rw [signal, wake]
  split
  · rfl
  · rfl

theorem Thread.signal_stable (sig : Signo) (k : Thread) : (k.signal sig).stable = k.stable := k.wake_stable

theorem sysKillImpl_same (s : Sys) (tid sig : BitVec 32) : Same Thread.stable s (sysKillImpl s tid sig).2 := by
  rw [sysKillImpl]
  split
  · exact .refl _ s
  · split
    · exact .refl _ s
    · split
      · exact .refl _ s
      · exact kthreadSignal_same (Thread.signal_stable _) _ _

theorem sysSetpgidImpl_same (s : Sys) (caller : Nat) (pid pgid : BitVec 32) :
    Same Thread.stable s (sysSetpgidImpl s caller pid pgid).2 := by
  rw [sysSetpgidImpl]
  split
  · exact .refl _ s
  · split
    · exact .refl _ s
    · apply Same.modify
      exact fun _ => rfl

end Calls

section Table

theorem record_self (s : Sys) (value : Option Nat) (small : x.toNat < 256) :
    s.record x value ⟨x.toNat, small⟩ = value := by
  rw [Sys.record, dif_pos small, update_self]

theorem record_other (s : Sys) {i : Fin 256} (value : Option Nat) (other : i.val ≠ x.toNat) :
    s.record x value i = s.tidTable i := by
  rw [Sys.record]
  split
  · exact update_of_ne (fun same => other (congrArg Fin.val same)) _ _
  · rfl

theorem lastExit_cons (e : Tid × Int) (exits : List (Tid × Int)) :
    lastExit (e :: exits) = update (lastExit exits) (exitIndex e.1) (some e) := by
  funext i
  by_cases same : i = exitIndex e.1
  · subst same
    simp [lastExit]
  · simp [lastExit, same, Ne.symm same]

variable {t : Audit}

theorem Sound.find_iff (sound : Sound t) :
    kthreadFind t.sys x = some a ↔ x.toNat < 256 ∧ ∃ k, t.sys.threads a = some k ∧ k.tid = x ∧ k.dead = false := by
  rw [kthreadFind]
  split
  next small =>
    constructor
    · intro found
      split at found
      · cases found
      next b entry =>
        obtain ⟨alive, ⟨⟩⟩ := Option.ite_none_right_eq_some.mp found
        obtain ⟨k, here, index⟩ := sound.entry _ a entry
        rw [here] at alive
        refine ⟨small, k, here, BitVec.eq_of_toNat_eq index, by simpa using alive⟩
    · rintro ⟨_, k, here, rfl, alive⟩
      rw [sound.listed a k here small]
      simp [here, alive]
  next large => exact iff_of_false (fun found => by cases found) fun found => large found.1

theorem Sound.replace {exits : List (Tid × Int)} {exitTab : Fin 64 → Tid × Int} {known : Nat → Bool} (sound : Sound t)
    (here : t.sys.threads a = some k) (tid : k'.tid = k.tid) (dead : k'.dead = true → k'.exitStatus.isSome = true)
    (more : ∀ x v, (x, v) ∈ t.exits → (x, v) ∈ exits) (own : ∀ v, k'.exitStatus = some v ↔ (k.tid, v) ∈ exits)
    (others : ∀ x v, x ≠ k.tid → ((x, v) ∈ exits ↔ (x, v) ∈ t.exits))
    (table : ∀ i, exitTab i = (lastExit exits i).getD (0, 0)) :
    Sound ⟨{ t.sys with threads := update t.sys.threads a (some k'), exitTab }, t.given, exits, known⟩ := by
  have same (b : Nat) : (update t.sys.threads a (some k') b).map Thread.tid = (t.sys.threads b).map Thread.tid := by
    by_cases same : b = a
    · rw [same, update_self, here, Option.map_some, Option.map_some, tid]
    · rw [update_of_ne same]
  refine sound.carry ⟨same, rfl, rfl, rfl⟩ ?_ ?_ more ?_ ?_ table
  · intro b kb there died
    rcases update_cases there with ⟨rfl, ⟨⟩⟩ | ⟨_, there⟩
    · exact dead died
    · exact sound.dead b kb there died
  · intro b kb there v
    rcases update_cases there with ⟨rfl, ⟨⟩⟩ | ⟨other, there⟩
    · rw [tid]
      exact own v
    · rw [others]
      · exact sound.exited b kb there v
      · intro equal
        exact other (sound.unique b a kb k there here equal)
  · intro x v v' first second
    by_cases same : x = k.tid
    · subst same
      exact Option.some.inj (((own v).mpr first).symm.trans ((own v').mpr second))
    · rw [others _ _ same] at first second
      exact sound.once x v v' first second
  · intro x v exited
    by_cases same : x = k.tid
    · subst same
      exact sound.mine a k here
    · rw [others _ _ same] at exited
      exact sound.issued x v exited

theorem Sound.below (sound : Sound t) (counted : t.sys.nextTid ≠ 0) (given : x ∈ t.given) :
    x ≠ 0 ∧ x < t.sys.nextTid := by
  obtain ⟨positive, wrapped | below⟩ := sound.fresh x given
  · exact absurd wrapped counted
  · exact ⟨positive, below⟩

theorem Sound.unheard (sound : Sound t) (counted : t.sys.nextTid ≠ 0) (old : x = 0 ∨ x ∈ t.given) :
    x ≠ t.sys.nextTid := by
  rcases old with rfl | given
  · exact counted.symm
  · have := sound.below counted given
    bv_omega

end Table

end Kappara.Proc
