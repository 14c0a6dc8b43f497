import Kappara.Proc.Known

/-! Wait and kill over whole runs. -/

set_option autoImplicit false

namespace Kappara.Proc

open Signal (Signo sigbit has)
open Function (update update_cases update_of_ne update_self)

variable {s s' : Sys} {t t' : Audit} {a b : Nat} {k k' : Thread} {x : Tid} {sig : Signo}

section Told

/-- What the callers of sys_wait have been told: an id below 256 is gone once its thread has exited. -/
structure Told (t : Audit) : Prop where
  given : ∀ a k y, t.sys.threads a = some k → k.target = some y → t.known a = true → y.1 ∈ t.given
  gone : ∀ a k x, t.sys.threads a = some k → k.target = some (x, true) → t.known a = true → x.toNat < 256 →
    ¬Live t.sys x

theorem Told.frame (told : Told t) (back : ∀ a k' y, s'.threads a = some k' → k'.target = some y →
      ∃ k, t.sys.threads a = some k ∧ k.target = some y)
    {given : List Tid} {exits : List (Tid × Int)} (more : ∀ x ∈ t.given, x ∈ given)
    (fewer : ∀ x ∈ t.given, Live s' x → Live t.sys x) : Told ⟨s', given, exits, t.known⟩ := by
  constructor
  · intro a k' y here target known
    obtain ⟨k, there, target⟩ := back a k' y here target
    exact more _ (told.given a k y there target known)
  · intro a k' x here target known small live
    obtain ⟨k, there, target⟩ := back a k' _ here target
    exact told.gone a k x there target known small (fewer x (told.given a k _ there target known) live)

theorem Same.target (same : Same Thread.stable s s') (a : Nat) (k' : Thread) (y : Tid × Bool)
    (here : s'.threads a = some k') (target : k'.target = some y) : ∃ k, s.threads a = some k ∧ k.target = some y := by
  obtain ⟨k, there, stable⟩ := same.back here
  exact ⟨k, there, (congrArg Prod.snd stable).symm.trans target⟩

structure Keeps (t : Audit) : Prop where
  sound : Sound t
  told : Told t

theorem Keeps.frame (keeps : Keeps t) (same : Same Thread.stable t.sys s') : Keeps { t with sys := s' } := by
  have ident := same.weaken (h := Thread.ident) (φ := Prod.fst) fun _ => rfl
  exact ⟨keeps.sound.frame ident, keeps.told.frame same.target (fun _ given => given) fun _ _ => ident.live⟩

theorem target_idle (idle : k.wait = none) : k.target = none := by
  rw [Thread.target, idle, Option.map_none]

theorem update_target {threads : Nat → Option Thread} {new : Option Thread}
    (idle : ∀ k y, new = some k → k.target = some y → ∃ k', threads a = some k' ∧ k'.target = some y) (b : Nat)
    (k : Thread) (y : Tid × Bool) (here : update threads a new b = some k) (target : k.target = some y) :
    ∃ k', threads b = some k' ∧ k'.target = some y := by
  rcases update_cases here with ⟨rfl, new⟩ | ⟨-, here⟩
  · exact idle k y new target
  · exact ⟨k, here, target⟩

theorem guarded {ready : Thread → Bool} {next : Thread → Sys} {found : Option Thread}
    (made : (match found with
      | none => none
      | some k =>
        if ready k then some (next k) else none) = some s') : ∃ k, found = some k ∧ ready k = true ∧ next k = s' := by
  split at made
  · cases made
  next k =>
    rw [Option.ite_none_right_eq_some] at made
    exact ⟨k, rfl, made.1, Option.some.inj made.2⟩

section

variable (keeps : Keeps t)
include keeps

theorem Keeps.create {parent : Option Nat} (counted : t.sys.nextTid ≠ 0) (made : kthreadCreate t.sys parent a = some s')
    : Keeps { t with sys := s', given := t.sys.nextTid :: t.given } := by
  have sound := keeps.sound
  obtain ⟨free, ⟨⟩⟩ := Option.ite_none_left_eq_some.mp made
  have free : t.sys.threads a = none := by simpa using free
  have other (b : Nat) (kb : Thread) (there : t.sys.threads b = some kb) : b ≠ a ∧ kb.tid ≠ t.sys.nextTid := by
    refine ⟨?_, sound.unheard counted (sound.mine b kb there)⟩
    rintro rfl
    rw [free] at there
    cases there
  generalize fresh : Thread.mk t.sys.nextTid false _ 0 none none = k
  have tid : k.tid = t.sys.nextTid := by rw [← fresh]
  have alive : k.dead = false ∧ k.exitStatus = none := by rw [← fresh]; exact ⟨rfl, rfl⟩
  have idle : k.target = none := by rw [← fresh]; rfl
  have kept (b : Nat) (kb : Thread) (there : t.sys.threads b = some kb) :
      update t.sys.threads a (some k) b = some kb := by
    rw [update_of_ne (other b kb there).1, there]
  refine ⟨?_, keeps.told.frame (update_target fun k' y new target => ?_)
    (fun _ given => List.mem_cons_of_mem _ given) ?_⟩
  · constructor
    · intro x given
      rcases List.mem_cons.mp given with rfl | given
      · refine ⟨counted, ?_⟩
        bv_omega
      · obtain ⟨positive, less⟩ := sound.below counted given
        refine ⟨positive, ?_⟩
        bv_omega
    · intro b kb there
      rcases update_cases there with ⟨rfl, ⟨⟩⟩ | ⟨_, there⟩
      · exact .inr (by simp [tid])
      · exact (sound.mine b kb there).imp_right (List.mem_cons_of_mem _)
    · intro b c kb kc first second equal
      rcases update_cases first with ⟨here, ⟨⟩⟩ | ⟨_, old⟩
      · rcases update_cases second with ⟨there, _⟩ | ⟨_, old'⟩
        · exact here.trans there.symm
        · exact absurd (equal.symm.trans tid) (other c kc old').2
      · rcases update_cases second with ⟨_, ⟨⟩⟩ | ⟨_, old'⟩
        · exact absurd (equal.trans tid) (other b kb old).2
        · exact sound.unique b c kb kc old old' equal
    · intro b kb there small
      rcases update_cases there with ⟨rfl, ⟨⟩⟩ | ⟨_, there⟩
      · simp only [tid]
        exact record_self _ _ _
      · refine (record_other _ _ ?_).trans (sound.listed b kb there small)
        exact fun equal => (other b kb there).2 (BitVec.eq_of_toNat_eq equal)
    · intro i b entry
      by_cases same : i.val = t.sys.nextTid.toNat
      · have small : t.sys.nextTid.toNat < 256 := same ▸ i.isLt
        have index : i = ⟨t.sys.nextTid.toNat, small⟩ := Fin.ext same
        rw [index] at entry
        have mine : b = a := by simpa [record_self] using entry.symm
        subst mine
        exact ⟨k, update_self _ _ _, by rw [tid, same]⟩
      · have entry : t.sys.tidTable i = some b := (record_other _ _ same).symm.trans entry
        obtain ⟨kb, there, index⟩ := sound.entry i b entry
        exact ⟨kb, kept b kb there, index⟩
    · intro b kb there died
      rcases update_cases there with ⟨rfl, ⟨⟩⟩ | ⟨_, there⟩
      · rw [alive.1] at died
        cases died
      · exact sound.dead b kb there died
    · intro b kb there v
      rcases update_cases there with ⟨rfl, ⟨⟩⟩ | ⟨_, there⟩
      · rw [alive.2, tid]
        refine iff_of_false (fun equal => by cases equal) fun exited => ?_
        exact sound.unheard counted (sound.issued _ v exited) rfl
      · exact sound.exited b kb there v
    · intro x given
      rcases List.mem_cons.mp given with rfl | given
      · exact .inl ⟨a, k, update_self _ _ _, tid⟩
      · rcases sound.gone x given with ⟨b, kb, there, equal⟩ | exited
        · exact .inl ⟨b, kb, kept b kb there, equal⟩
        · exact .inr exited
    · exact sound.once
    · exact fun x v exited => (sound.issued x v exited).imp_right (List.mem_cons_of_mem _)
    · exact sound.table
  · cases new
    rw [idle] at target
    cases target
  · rintro x given ⟨b, kb, there, equal, living⟩
    rcases update_cases there with ⟨rfl, ⟨⟩⟩ | ⟨_, there⟩
    · exact absurd (equal.symm.trans tid) (sound.unheard counted (.inr given))
    · exact ⟨b, kb, there, equal, living⟩

theorem Keeps.exit {status : Int} (made : kthreadExit t.sys a status = some s') :
    Keeps { t with sys := s', exits := ((t.sys.threads a).map fun k => (k.tid, status)).toList ++ t.exits } := by
  have sound := keeps.sound
  obtain ⟨k, here, running, rfl⟩ := guarded made
  have running : k.exitStatus = none := by
    rw [Bool.and_eq_true] at running
    simpa using running.1
  have silent (v : Int) : (k.tid, v) ∉ t.exits := by
    rw [← sound.exited a k here v, running]
    exact fun equal => by cases equal
  refine ⟨?_, keeps.told.frame (update_target fun k' y new target => ?_) (fun _ given => given) ?_⟩
  · rw [here]
    refine sound.replace here rfl (fun _ => rfl) (fun x v exited => List.mem_cons_of_mem _ exited) (fun v => ?_) ?_ ?_
    · simp [silent, eq_comm]
    · intro x v other
      simp [other]
    · intro i
      change _ = (lastExit ((k.tid, status) :: t.exits) i).getD (0, 0)
      rw [lastExit_cons]
      by_cases same : i = exitIndex k.tid
      · simp [same]
      · simp [same, sound.table]
  · cases new
    exact ⟨k, here, target⟩
  · rintro x _ ⟨b, kb, there, equal, living⟩
    rcases update_cases there with ⟨rfl, ⟨⟩⟩ | ⟨_, there⟩
    · exact ⟨b, k, here, equal, living⟩
    · exact ⟨b, kb, there, equal, living⟩

theorem Keeps.dies (made : kthreadDead t.sys a = some s') : Keeps { t with sys := s' } := by
  have sound := keeps.sound
  obtain ⟨k, here, leaving, rfl⟩ := guarded made
  rw [Bool.and_eq_true] at leaving
  have dead : Sound ⟨{ t.sys with threads := update t.sys.threads a (some { k with dead := true }) }, t.given, t.exits,
      t.known⟩ :=
    sound.replace here rfl (fun _ => leaving.1) (fun _ _ exited => exited) (sound.exited a k here)
      (fun _ _ _ => Iff.rfl) sound.table
  have woken : Same Thread.stable { t.sys with threads := update t.sys.threads a (some { k with dead := true }) }
      { t.sys with threads := fun b => (update t.sys.threads a (some { k with dead := true }) b).map Thread.wake } := by
    refine ⟨fun b => ?_, rfl, rfl, rfl⟩
    simp only [Option.map_map, Function.comp_def, Thread.wake_stable]
  have ident := woken.weaken (h := Thread.ident) (φ := Prod.fst) fun _ => rfl
  refine ⟨dead.frame ident, keeps.told.frame (fun b k' y there target => ?_) (fun _ given => given) fun x _ live => ?_⟩
  · obtain ⟨kb, before, target⟩ := woken.target b k' y there target
    refine update_target (fun k' y new target => ?_) b kb y before target
    cases new
    exact ⟨k, here, target⟩
  obtain ⟨b, kb, there, equal, living⟩ := ident.live live
  rcases update_cases there with ⟨rfl, ⟨⟩⟩ | ⟨_, there⟩
  · cases living
  · exact ⟨b, kb, there, equal, living⟩

theorem Keeps.reaped (made : Proc.reap t.sys a = some s') : Keeps { t with sys := s' } := by
  have sound := keeps.sound
  obtain ⟨k, here, dead, rfl⟩ := guarded made
  have left (b : Nat) (kb : Thread) (there : update t.sys.threads a none b = some kb) :
      b ≠ a ∧ t.sys.threads b = some kb := by
    rcases update_cases there with ⟨-, ⟨⟩⟩ | left
    exact left
  refine ⟨?_, keeps.told.frame (update_target fun k' y new => ?_) (fun _ given => given) ?_⟩
  · constructor
    · exact sound.fresh
    · exact fun b kb there => sound.mine b kb (left b kb there).2
    · exact fun b c kb kc first second => sound.unique b c kb kc (left b kb first).2 (left c kc second).2
    · intro b kb there small
      obtain ⟨other, there⟩ := left b kb there
      refine (record_other _ _ fun equal => ?_).trans (sound.listed b kb there small)
      exact other (sound.unique b a kb k there here (BitVec.eq_of_toNat_eq equal))
    · intro i b entry
      have other : i.val ≠ k.tid.toNat := by
        intro same
        have small : k.tid.toNat < 256 := same ▸ i.isLt
        have index : i = ⟨k.tid.toNat, small⟩ := Fin.ext same
        rw [index] at entry
        have empty := (record_self t.sys none small).symm.trans entry
        cases empty
      obtain ⟨kb, there, index⟩ := sound.entry i b ((record_other _ _ other).symm.trans entry)
      refine ⟨kb, ?_, index⟩
      refine (update_of_ne ?_ _ _).trans there
      rintro rfl
      rw [here] at there
      cases there
      exact other index.symm
    · exact fun b kb there => sound.dead b kb (left b kb there).2
    · exact fun b kb there => sound.exited b kb (left b kb there).2
    · intro x given
      rcases sound.gone x given with ⟨b, kb, there, equal⟩ | exited
      · by_cases same : b = a
        · subst same
          rw [here] at there
          cases there
          obtain ⟨v, status⟩ := Option.isSome_iff_exists.mp (sound.dead b k here dead)
          exact .inr ⟨v, equal ▸ (sound.exited b k here v).mp status⟩
        · exact .inl ⟨b, kb, (update_of_ne same _ _).trans there, equal⟩
      · exact .inr exited
    · exact sound.once
    · exact sound.issued
    · exact sound.table
  · cases new
  · rintro x _ ⟨b, kb, there, equal, living⟩
    exact ⟨b, kb, (left b kb there).2, equal, living⟩

theorem Keeps.call {f : Thread → Thread} {known : Nat → Bool} (ident : ∀ k, (f k).ident = k.ident)
    (others : ∀ b, b ≠ a → known b = t.known b)
    (given : ∀ k y, t.sys.threads a = some k → (f k).target = some y → known a = true → y.1 ∈ t.given)
    (gone : ∀ k x, t.sys.threads a = some k → (f k).target = some (x, true) → known a = true → x.toNat < 256 →
    ¬Live t.sys x) : Keeps { t with sys := t.sys.modify a f, known } := by
  have same : Same Thread.ident t.sys (t.sys.modify a f) := Same.modify ident a
  refine ⟨keeps.sound.frame same, ?_, ?_⟩
  · intro b k y here target asked
    by_cases mine : b = a
    · subst mine
      obtain ⟨k, there, rfl⟩ := Option.map_eq_some_iff.mp ((modify_self _ _ _).symm.trans here)
      exact given k y there target asked
    · exact keeps.told.given b k y ((modify_other _ _ mine).symm.trans here) target ((others b mine).symm.trans asked)
  · intro b k x here target asked small live
    by_cases mine : b = a
    · subst mine
      obtain ⟨k, there, rfl⟩ := Option.map_eq_some_iff.mp ((modify_self _ _ _).symm.trans here)
      exact gone k x there target asked small (same.live live)
    · exact keeps.told.gone b k x ((modify_other _ _ mine).symm.trans here) target
        ((others b mine).symm.trans asked) small (same.live live)

theorem Keeps.wait (made : sysWaitImpl t.sys a x = some s') :
    Keeps { t with sys := s', known := update t.known a (t.given.contains x) } := by
  have others (b : Nat) (other : b ≠ a) : update t.known a (t.given.contains x) b = t.known b :=
    update_of_ne other _ _
  obtain ⟨k, here, idle, rfl⟩ := guarded made
  rw [Bool.and_eq_true] at idle
  have none (k' : Thread) (y : Tid × Bool) (there : t.sys.threads a = some k') : k'.target ≠ some y := by
    rw [here] at there
    cases there
    rw [target_idle (by simpa using idle.2)]
    exact fun equal => by cases equal
  split
  · have unchanged : t.sys = t.sys.modify a id := by simp [Sys.modify]
    rw [unchanged]
    exact keeps.call (fun _ => rfl) others (fun k' y there target => absurd target (none k' y there))
      fun k' x there target => absurd target (none k' _ there)
  · refine keeps.call (fun _ => rfl) others ?_ ?_
    · intro k' y _ target asked
      cases target
      rw [update_self] at asked
      exact List.contains_iff_mem.mp asked
    · intro k' x' _ target
      cases target

theorem Keeps.check (made : waitCheck t.sys a = some s') : Keeps { t with sys := s' } := by
  rw [waitCheck] at made
  split at made
  · cases made
  next k here =>
    split at made
    next x waits =>
      cases made
      refine keeps.call (fun _ => rfl) (fun _ _ => rfl) ?_ ?_
      · intro k' y there target asked
        rw [here] at there
        cases there
        have same : y.1 = x := by
          rw [Thread.target] at target
          split at target
          · cases target
            rfl
          · split at target
            · cases target
            · cases target
              rfl
        rw [same]
        exact keeps.told.given a k (x, false) here (by rw [Thread.target, waits]; rfl) asked
      · intro k' x' there target asked small live
        rw [Thread.target] at target
        split at target
        next missing =>
          cases target
          obtain ⟨b, kb, there, equal, living⟩ := live
          have found : kthreadFind t.sys x = some b := keeps.sound.find_iff.mpr ⟨small, kb, there, equal, living⟩
          rw [found] at missing
          cases missing
        · split at target
          · cases target
          · cases target
    · cases made

theorem Keeps.read (made : (waitRead t.sys a).map (·.2) = some s') : Keeps { t with sys := s' } := by
  rw [waitRead] at made
  split at made
  · cases made
  · split at made
    · cases made
      refine keeps.call (fun _ => rfl) (fun _ _ => rfl) ?_ ?_
      · intro k' y _ target
        cases target
      · intro k' x' _ target
        cases target
    · cases made

theorem Keeps.step {event : Event} (counted : t.counted event) (made : t.step event = some t') : Keeps t' := by
  obtain ⟨s', made', rfl⟩ := Option.map_eq_some_iff.mp made
  cases event with
  | create parent a => exact keeps.create counted made'
  | setpgid caller pid pgid =>
    cases made'
    exact keeps.frame (sysSetpgidImpl_same ..)
  | setsid | deliver =>
    cases made'
    apply keeps.frame
    apply Same.modify
    exact fun _ => rfl
  | kill tid sig =>
    cases made'
    exact keeps.frame (sysKillImpl_same ..)
  | signalPgrp pgrp sig =>
    cases made'
    exact keeps.frame (kthreadSignalPgrp_same (Thread.signal_stable sig) _)
  | exit a status => exact keeps.exit made'
  | dead a => exact keeps.dies made'
  | reap a => exact keeps.reaped made'
  | wait a tid => exact keeps.wait made'
  | check a => exact keeps.check made'
  | read a => exact keeps.read made'

end

theorem keeps_start : Keeps .start := by
  have main (a : Nat) (k : Thread) (here : booted.threads a = some k) : a = 0 ∧ k = ⟨0, false, 0, 0, none, none⟩ := by
    change update (fun _ => none) 0 _ a = some k at here
    rcases update_cases here with ⟨zero, ⟨⟩⟩ | ⟨-, ⟨⟩⟩
    exact ⟨zero, rfl⟩
  refine ⟨⟨?_, ?_, ?_, ?_, ?_, ?_, ?_, ?_, ?_, ?_, ?_⟩, ?_, ?_⟩
  · exact fun x given => by cases given
  · intro a k here
    exact .inl (by rw [(main a k here).2])
  · intro a b k k' first second _
    rw [(main a k first).1, (main b k' second).1]
  · intro a k here small
    obtain ⟨rfl, rfl⟩ := main a k here
    rfl
  · intro i a entry
    change update (fun _ => none) 0 (some 0) i = some a at entry
    rcases update_cases entry with ⟨rfl, ⟨⟩⟩ | ⟨-, ⟨⟩⟩
    exact ⟨_, rfl, rfl⟩
  · intro a k here dead
    rw [(main a k here).2] at dead
    cases dead
  · intro a k here v
    rw [(main a k here).2]
    exact iff_of_false (fun equal => by cases equal) fun exited => by cases exited
  · exact fun x given => by cases given
  · exact fun x v v' exited => by cases exited
  · exact fun x v exited => by cases exited
  · exact fun i => rfl
  · intro a k y here target
    rw [(main a k here).2] at target
    cases target
  · intro a k x here target
    rw [(main a k here).2] at target
    cases target

theorem Keeps.run (reached : Run.Reach Audit.step Audit.counted Audit.Booted t) : Keeps t := by
  apply reached.invariant
  · rintro _ rfl
    exact keeps_start
  · exact fun _ _ _ keeps => keeps.step

end Told

section Known

def Marked (s : Sys) (a : Nat) (sig : Signo) : Prop := ∃ k, s.threads a = some k ∧ has k.pending sig = true

theorem kthreadSignal_marks (here : s.threads a = some k) (real : sig ≠ 0) :
    (kthreadSignal s a sig).1 = 0 ∧ Marked (kthreadSignal s a sig).2 a sig := by
  have bit : has (sigbit sig) sig = true := by
    rw [Signal.has_sigbit (Signal.mem_signals.mpr real) (Signal.mem_signals.mpr real)]
    exact decide_eq_true rfl
  rw [kthreadSignal, if_neg real]
  refine ⟨rfl, k.signal sig, ?_, ?_⟩
  · rw [modify_self, here, Option.map_some]
  · simp [Thread.signal, bit]

theorem kthreadSignal_other (other : b ≠ a) : (kthreadSignal s a sig).2.threads b = s.threads b := by
  rw [kthreadSignal]
  split
  · rfl
  · exact modify_other _ _ other

theorem Marked.signal (marked : Marked s b sig) (a : Nat) : Marked (kthreadSignal s a sig).2 b sig := by
  obtain ⟨k, here, pending⟩ := marked
  by_cases same : b = a
  · subst same
    rw [kthreadSignal]
    split
    · exact ⟨k, here, pending⟩
    · exact ⟨k.signal sig, by rw [modify_self, here, Option.map_some], by simp [Thread.signal, pending]⟩
  · exact ⟨k, by rw [kthreadSignal_other same, here], pending⟩

theorem Sound.kill_iff (sound : Sound t) (here : t.sys.threads a = some k) (living : k.dead = false)
    (given : k.tid ∈ t.given) (real : sig ≠ 0) :
    (sysKillImpl t.sys k.tid (BitVec.ofNat 32 sig)).1 = 0 ∧
      Marked (sysKillImpl t.sys k.tid (BitVec.ofNat 32 sig)).2 a sig ↔ k.tid.toNat < 256 := by
  have valid : ¬((BitVec.ofNat 32 sig).toInt < 0 ∨ 32 ≤ (BitVec.ofNat 32 sig).toInt) ∧ BitVec.ofNat 32 sig ≠ 0 ∧
      Fin.ofNat 32 (BitVec.ofNat 32 sig).toNat = sig := by
    revert sig
    decide
  obtain ⟨inside, nonzero, back⟩ := valid
  constructor
  · rintro ⟨found, _⟩
    rw [sysKillImpl] at found
    split at found
    · cases found
    · split at found
      · cases found
      next b listed => exact (sound.find_iff.mp listed).1
  · intro small
    have positive : ¬k.tid.toInt ≤ 0 := by
      have nonzero := (sound.fresh _ given).1
      rw [BitVec.toInt_eq_toNat_of_lt (by omega)]
      bv_omega
    have found : kthreadFind t.sys k.tid = some a := sound.find_iff.mpr ⟨small, k, here, rfl, living⟩
    rw [sysKillImpl, if_neg (not_or.mpr ⟨positive, inside⟩), found]
    dsimp only
    rw [if_neg nonzero, back]
    exact kthreadSignal_marks here real

theorem signalAt_unlisted {pgrp : BitVec 32} {out : Int × Sys} {i : Fin 256} (unlisted : out.2.tidTable i ≠ some a) :
    (signalAt pgrp sig out i).2.threads a = out.2.threads a := by
  rw [signalAt]
  split
  · rfl
  next b entry =>
    split
    · apply kthreadSignal_other
      rintro rfl
      exact unlisted entry
    · rfl

theorem Marked.signalAt {pgrp : BitVec 32} {out : Int × Sys} (marked : Marked out.2 a sig) (i : Fin 256) :
    Marked (signalAt pgrp sig out i).2 a sig := by
  rw [Proc.signalAt]
  split
  · exact marked
  · split
    · exact marked.signal _
    · exact marked

/-- The loop reaches every thread of the group that the table has, and no thread that it has not. -/
theorem foldl_signalAt (a : Nat) (sig : Signo) (pgrp : BitVec 32) (l : List (Fin 256)) (out : Int × Sys) :
    ((∀ i, out.2.tidTable i ≠ some a) → (l.foldl (signalAt pgrp sig) out).2.threads a = out.2.threads a) ∧
    (Marked out.2 a sig → Marked (l.foldl (signalAt pgrp sig) out).2 a sig) ∧
    (∀ i ∈ l, out.2.tidTable i = some a → sig ≠ 0 → (out.2.threads a).map Thread.member = some (false, pgrp) →
      Marked (l.foldl (signalAt pgrp sig) out).2 a sig) := by
  induction l generalizing out with
  | nil => exact ⟨fun _ => rfl, id, fun i inside => by cases inside⟩
  | cons j rest ih =>
    have same : Same Thread.member out.2 (signalAt pgrp sig out j).2 := signalAt_same (Thread.signal_member sig) out j
    obtain ⟨unlisted, keeps, reaches⟩ := ih (signalAt pgrp sig out j)
    rw [List.foldl_cons]
    refine ⟨fun none => ?_, fun marked => keeps (marked.signalAt j), ?_⟩
    · rw [unlisted, signalAt_unlisted (none j)]
      rw [same.tidTable]
      exact none
    · intro i inside entry real member
      rcases List.mem_cons.mp inside with rfl | later
      · apply keeps
        obtain ⟨k, here, group⟩ := Option.map_eq_some_iff.mp member
        have mine : k.dead = false ∧ k.pgrp = pgrp := by simpa [Thread.member] using group
        rw [signalAt, entry]
        dsimp only
        rw [if_pos (by simp [here, mine])]
        exact (kthreadSignal_marks here real).2
      · exact reaches i later (by rw [same.tidTable, entry]) real ((same.kept a).trans member)

theorem Sound.pgrp_iff (sound : Sound t) (here : t.sys.threads a = some k) (living : k.dead = false)
    (group : k.pgrp ≠ 0) (real : sig ≠ 0) (quiet : has k.pending sig = false) :
    Marked (kthreadSignalPgrp t.sys k.pgrp sig).2 a sig ↔ k.tid.toNat < 256 := by
  rw [kthreadSignalPgrp, if_neg group]
  obtain ⟨unlisted, _, reaches⟩ := foldl_signalAt a sig k.pgrp (List.finRange 256) (0, t.sys)
  constructor
  · intro marked
    by_contra large
    rw [Marked, unlisted] at marked
    · obtain ⟨k', there, pending⟩ := marked
      rw [here] at there
      cases there
      rw [quiet] at pending
      cases pending
    · intro i entry
      obtain ⟨k', there, index⟩ := sound.entry i a entry
      rw [here] at there
      cases there
      omega
  · intro small
    exact reaches ⟨k.tid.toNat, small⟩ (List.mem_finRange _) (sound.listed a k here small) real
      (by simp [here, Thread.member, living])

theorem Sound.status (sound : Sound t) (x : Tid) :
    (∃ v, lastExit t.exits (exitIndex x) = some (x, v) ∧ kthreadExitStatus t.sys x = v) ∨
      (∀ v, lastExit t.exits (exitIndex x) ≠ some (x, v)) ∧ kthreadExitStatus t.sys x = 0 := by
  rw [kthreadExitStatus, sound.table]
  cases last : lastExit t.exits (exitIndex x) with
  | none => exact .inr ⟨fun v => by simp, by simp⟩
  | some e =>
    by_cases same : e.1 = x
    · exact .inl ⟨e.2, by rw [← same], by simp [same]⟩
    · refine .inr ⟨fun v equal => ?_, by simp [same]⟩
      cases equal
      exact same rfl

def Answers (t : Audit) (x : Tid) (v : Int) : Prop := ¬Live t.sys x ∧ (x, v) ∈ t.exits

/-- The id is below 256, or its thread has exited; and the last exit of its index is its own, or its status is 0. -/
def Remembered (t : Audit) (x : Tid) : Prop :=
  (x.toNat < 256 ∨ ¬Live t.sys x) ∧ ∃ v, (x, v) ∈ t.exits ∧ (lastExit t.exits (exitIndex x) = some (x, v) ∨ v = 0)

theorem Keeps.wait_iff (keeps : Keeps t) (here : t.sys.threads a = some k) (reading : k.wait = some (.reading x))
    (known : t.known a = true) : Answers t x (kthreadExitStatus t.sys x) ↔ Remembered t x := by
  have target : k.target = some (x, true) := by rw [Thread.target, reading]; rfl
  constructor
  · rintro ⟨gone, exited⟩
    refine ⟨.inr gone, _, exited, ?_⟩
    rcases keeps.sound.status x with ⟨v, last, status⟩ | ⟨_, status⟩
    · exact .inl (by rw [last, status])
    · exact .inr status
  · rintro ⟨small, v, exited, last⟩
    refine ⟨?_, ?_⟩
    · rcases small with small | gone
      · exact keeps.told.gone a k x here target known small
      · exact gone
    · rcases keeps.sound.status x with ⟨v', last', status⟩ | ⟨none, status⟩
      · rw [status]
        exact List.mem_of_find?_eq_some last'
      · rcases last with last | zero
        · exact absurd last (none v)
        · rw [status, ← zero]
          exact exited

end Known

/-- In every run in which the counter of the ids has not wrapped: the status a caller of sys_wait reads is that of the
thread, which has exited, exactly if the id is remembered; sys_kill and a signal to the group reach a thread exactly if
its id is below 256. -/
theorem wait_kill_know_thread_iff (reached : Run.Reach Audit.step Audit.counted Audit.Booted t) :
    (∀ a k x out, t.sys.threads a = some k → k.wait = some (.reading x) → t.known a = true →
      waitRead t.sys a = some out → (Answers t x out.1 ↔ Remembered t x)) ∧
    (∀ (a : Nat) (k : Thread) (sig : Signo), t.sys.threads a = some k → k.dead = false → k.tid ∈ t.given → sig ≠ 0 →
      ((sysKillImpl t.sys k.tid (BitVec.ofNat 32 sig)).1 = 0 ∧
        Marked (sysKillImpl t.sys k.tid (BitVec.ofNat 32 sig)).2 a sig ↔ k.tid.toNat < 256)) ∧
    (∀ (a : Nat) (k : Thread) (sig : Signo), t.sys.threads a = some k → k.dead = false → k.pgrp ≠ 0 → sig ≠ 0 →
      has k.pending sig = false → (Marked (kthreadSignalPgrp t.sys k.pgrp sig).2 a sig ↔ k.tid.toNat < 256)) := by
  have keeps := Keeps.run reached
  refine ⟨?_, ?_, ?_⟩
  · intro a k x out here reading known read
    have returned : out.1 = kthreadExitStatus t.sys x := by
      rw [waitRead, here] at read
      dsimp only at read
      rw [reading] at read
      rw [← Option.some.inj read]
    rw [returned]
    exact keeps.wait_iff here reading known
  · intro a k sig here living given real
    exact keeps.sound.kill_iff here living given real
  · intro a k sig here living group real quiet
    exact keeps.sound.pgrp_iff here living group real quiet

/-- A child exits while its parent waits for it. -/
theorem wait_kill_know_thread_child : ∃ t : Audit, (∃ out, waitRead t.sys 0 = some out ∧ Answers t 1 out.1) ∧
    ∃ k, t.sys.threads 2 = some k ∧ (sysKillImpl t.sys k.tid 15).1 = 0 := by
  obtain ⟨t, -, ⟨read, wait, known, exits, given, second⟩, waits, kills, -⟩ := Run.Reach.found_with
    (P := fun t => (waitRead t.sys 0).isSome ∧ (t.sys.threads 0).map (·.wait) = some (some (.reading 1)) ∧
      t.known 0 = true ∧ t.exits = [(1, 7)] ∧ t.given = [2, 1] ∧
        (t.sys.threads 2).map (fun k => (k.tid, k.dead)) = some (2, false))
    (fun t => wait_kill_know_thread_iff)
    [.create (some 0) 1, .create (some 0) 2, .wait 0 1, .check 0, .exit 1 7, .dead 1, .check 0] rfl (by decide +kernel)
  obtain ⟨out, read⟩ := Option.isSome_iff_exists.mp read
  obtain ⟨k, here, reading⟩ := Option.map_eq_some_iff.mp wait
  obtain ⟨k', here', child⟩ := Option.map_eq_some_iff.mp second
  refine ⟨t, ⟨out, read, (waits 0 k 1 out here reading known read).mpr ?_⟩, k', here', ?_⟩
  · refine ⟨.inl (by decide), 7, by simp [exits], .inl ?_⟩
    rw [exits]
    rfl
  · have child : k'.tid = 2 ∧ k'.dead = false := by simpa using child
    have killed := (kills 2 k' 15 here' child.2 (by simp [given, child.1]) (by decide)).mpr (by rw [child.1]; decide)
    exact killed.1

/-- The thread with id 256 is alive, but sys_kill does not find it and sys_wait returns 0 at once. -/
theorem thread_256_unknown : ∃ t : Audit, Run.Reach Audit.step Audit.counted Audit.Booted t ∧
    (∃ k, t.sys.threads 256 = some k ∧ k.tid = 256 ∧ k.dead = false ∧ (sysKillImpl t.sys k.tid 15).1 = -1) ∧
    t.known 0 = true ∧ (waitRead t.sys 0).map (·.1) = some 0 := by
  obtain ⟨t, reached, thread, killed, known, read⟩ : ∃ t, Run.Reach Audit.step Audit.counted Audit.Booted t ∧
      (t.sys.threads 256).map (fun k => (k.tid, k.dead)) = some (256, false) ∧ (sysKillImpl t.sys 256 15).1 = -1 ∧
      t.known 0 = true ∧ (waitRead t.sys 0).map (·.1) = some 0 :=
    Run.Reach.found ((List.range 256).map (fun i => .create (some 0) (i + 1)) ++ [.wait 0 256, .check 0]) rfl
      (by decide +kernel)
  obtain ⟨k, here, alive⟩ := Option.map_eq_some_iff.mp thread
  have alive : k.tid = 256 ∧ k.dead = false := by simpa using alive
  exact ⟨t, reached, ⟨k, here, alive.1, alive.2, by rw [alive.1, killed]⟩, known, read⟩

end Kappara.Proc
