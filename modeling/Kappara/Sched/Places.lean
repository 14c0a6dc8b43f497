import Kappara.Sched.Switch

/-! Every thread is in one place, over whole runs. -/

set_option autoImplicit false

namespace Kappara.Sched

variable {n N : Nat} {s s' : Sys n N} {places : Places n N} {lists : Lists n N} {t : Fin N}

variable {c : Fin n} {q : Queue n N} {p : Place n N}

section Runs

open Classical in
/-- At boot the idle threads run. -/
noncomputable def bootPlaces (s : Sys n N) : Places n N := fun t =>
  if some : ∃ c, (s.cpu c).idle = t then .running some.choose else .unused

theorem bootPlaces_cases (s : Sys n N) (t : Fin N) :
    (∃ c, (s.cpu c).idle = t ∧ bootPlaces s t = .running c) ∨ (∀ c, (s.cpu c).idle ≠ t) ∧ bootPlaces s t = .unused := by
  by_cases some : ∃ c, (s.cpu c).idle = t
  · exact .inl ⟨some.choose, some.choose_spec, by rw [bootPlaces, dif_pos some]⟩
  · exact .inr ⟨fun c idle => some ⟨c, idle⟩, by rw [bootPlaces, dif_neg some]⟩

theorem Booted.running_iff (booted : Booted s) : bootPlaces s t = .running c ↔ (s.cpu c).idle = t := by
  rcases bootPlaces_cases s t with ⟨c', idle, place⟩ | ⟨other, place⟩
  · rw [place, Place.running.injEq]
    constructor
    · rintro rfl
      exact idle
    · exact fun mine => booted.own _ _ (idle.trans mine.symm)
  · rw [place]
    exact iff_of_false (fun equal => by cases equal) (other c)

theorem Booted.cpuOk (booted : Booted s) (c : Fin n) : CpuOk (bootPlaces s) (s.cpu c) c s.held s.context := by
  obtain ⟨phase, pending, release⟩ := booted.quiet c
  have only (t : Fin N) : (∃ c', bootPlaces s t = .running c') ∨ bootPlaces s t = .unused := by
    rcases bootPlaces_cases s t with ⟨c', _, place⟩ | ⟨_, place⟩
    · exact .inl ⟨c', place⟩
    · exact .inr place
  have idle : bootPlaces s (s.cpu c).idle = .running c := booted.running_iff.mpr rfl
  constructor
  · intro t
    rw [booted.idle, ← booted.running_iff]
    rcases only t with ⟨c', place⟩ | place
    · simp [place, Place.cpu]
    · simp [place, Place.cpu]
  · intro t
    rw [pending]
    rcases only t with ⟨c', place⟩ | place
    · simp [place]
    · simp [place]
  · intro t here
    rcases only t with ⟨c', place⟩ | place <;> cases here.symm.trans place
  · exact .inl idle
  · intro t here
    rcases only t with ⟨c', place⟩ | place <;> cases here.symm.trans place
  · rw [Settled, phase]
    exact ⟨⟨by rwa [booted.idle], release⟩, pending⟩
  · intro l holds
    rw [release] at holds
    cases holds
  · intro t
    rw [booted.context, Cpu.live, phase, booted.idle]

theorem Booted.good (booted : Booted s) : Good s := by
  refine ⟨bootPlaces s, fun _ => [], ⟨?_, ?_, ?_⟩, ?_, ?_, booted.cpuOk, ?_⟩
  · exact ⟨booted.head, fun _ => List.nodup_nil, fun _ _ _ inside => by cases inside⟩
  · exact booted.tail
  · exact booted.map
  · intro q t
    rcases bootPlaces_cases s t with ⟨c, _, place⟩ | ⟨_, place⟩
    · simp [place, Place.queue]
    · simp [place, Place.queue]
  · intro t
    cases here : s.threads t with
    | none =>
      rcases bootPlaces_cases s t with ⟨c, idle, _⟩ | ⟨_, place⟩
      · have used := (booted.threads t).mpr ⟨c, idle⟩
        rw [here] at used
        cases used
      · exact place
    | some k =>
      rcases bootPlaces_cases s t with ⟨c, _, place⟩ | ⟨other, _⟩
      · rw [place]
        exact booted.running t k here
      · obtain ⟨c, idle⟩ := (booted.threads t).mp (by rw [here]; rfl)
        exact absurd idle (other c)
  · intro c c' l holds
    rw [(booted.quiet c).2.2] at holds
    cases holds

theorem Kthread.clTick_kept (k : Kthread N) : k.clTick.state = k.state ∧ k.clTick.waitingOn = k.waitingOn := by
  rw [clTick]
  split
  · exact ⟨rfl, rfl⟩
  · dsimp only
    generalize (if 0 < k.quantumLeft then k.quantumLeft - 1 else k.quantumLeft) = left
    split
    · exact ⟨rfl, rfl⟩
    · exact ⟨rfl, rfl⟩

theorem Kthread.setclass_kept (k : Kthread N) (cid : Sclass) :
    (k.setclass cid).state = k.state ∧ (k.setclass cid).waitingOn = k.waitingOn := by
  cases cid with
  | sys | ts => exact ⟨rfl, rfl⟩

theorem Good.step {event : Event n N} (good : Good s) (allowed : orderly s event) (made : step s event = some s') :
    Good s' := by
  obtain ⟨places, lists, agrees⟩ := good
  cases event with
  | create t w => exact agrees.create made
  | push w c => exact agrees.push made
  | setclass t cid =>
    cases made
    exact agrees.modify (fun k => (k.setclass_kept cid).1) (fun k => (k.setclass_kept cid).2) t
  | tick c =>
    cases made
    exact agrees.modify (fun k => k.clTick_kept.1) (fun k => k.clTick_kept.2) _
  | yield c =>
    obtain ⟨run, ⟨⟩⟩ := Option.ite_none_right_eq_some.mp made
    exact agrees.enter run
  | yieldOn => exact False.elim allowed
  | sleep c wq => exact agrees.sleep allowed made
  | exit c w => exact agrees.exit allowed made
  | enter c =>
    obtain ⟨leaving, ⟨⟩⟩ := Option.ite_none_right_eq_some.mp made
    exact agrees.enter leaving
  | steal c victim => exact agrees.trySteal made
  | commit c => exact agrees.commit made
  | swtch c => exact agrees.contextSwitch made
  | drain c => exact agrees.drain made
  | finish c => exact agrees.finish made
  | wakeOne wq w => exact agrees.wakeOne made
  | wakeAll wq w => exact agrees.wakeAll made
  | signal t wq w => exact agrees.signal made
  | grab r => exact agrees.grab made
  | free r => exact agrees.free made

theorem Good.run (reached : Run.Reach Sched.step orderly Booted s) : Good s :=
  reached.invariant (fun _ => Booted.good) fun _ _ _ => Good.step

end Runs

section Spots

/-- Linked exactly once on the list. -/
def Linked (s : Sys n N) (q : Queue n N) (t : Fin N) : Prop := ∃ l, Links.Path s.next (s.head q) l none ∧ l.count t = 1

/-- The places of a thread while the lock of its place is free. -/
inductive Spot (n N : Nat) where
  | running (c : Fin n)
  | requeue (c : Fin n)
  | queued (c : Fin n) (pri : Fin 64)
  | waiting (wq : WaitQueue N)
  | hand (w : Nat)
  | reap
  deriving DecidableEq

def At (s : Sys n N) (t : Fin N) : Spot n N → Prop
  | .running c => (s.cpu c).thread = t
  | .requeue c => (s.cpu c).pendingRequeue = some t
  | .queued c pri => Linked s (.disp c pri) t
  | .waiting wq => Linked s (.wait wq) t
  | .hand w => Linked s (.hand w) t
  | .reap => Linked s .reap t

def Live (s : Sys n N) (t : Fin N) : Prop := (s.threads t).isSome = true ∧ ∀ r, ¬Linked s (.drain r) t

/-- The processor holds the lock of the thread's place: cpu_thread_lock, for the thread it has chosen, or the
lock of the list its outgoing thread has gone to. -/
def Guards (k : Cpu N) (t : Fin N) : Prop := k.phase.taken = some t ∨ k.thread = t ∧ k.phase.leaves = true

structure Placed (s : Sys n N) : Prop where
  one : ∀ t, Live s t → (∀ c, (s.cpu c).idle ≠ t) → (∀ c, ¬Guards (s.cpu c) t) → ∃! spot, At s t spot
  blocked : ∀ t wq, At s t (.waiting wq) → ∃ k, s.threads t = some k ∧ k.state = .blocked ∧ k.waitingOn = some wq
  dead : ∀ t, At s t .reap → ∃ k, s.threads t = some k ∧ k.state = .dead
  acyclic : ∀ q, ∃ l, Links.Path s.next (s.head q) l none ∧ l.Nodup
  locked : ∀ t c q, s.context t = some c → Linked s q t → ∃ lock, q.lock = some lock ∧ s.held lock = true
  saved : ∀ c prev, (s.cpu c).phase = .switching prev → s.context (s.cpu c).thread = none
  registers : ∀ t c, s.context t = some c ↔ (s.cpu c).live = t

theorem Listed.linked (listed : Listed s lists) : Linked s q t ↔ t ∈ lists q := by
  have path := listed.chained.path q
  have once := listed.chained.once q
  constructor
  · rintro ⟨l, other, count⟩
    rw [path.unique other, ← List.count_pos_iff, count]
    exact Nat.one_pos
  · exact fun inside => ⟨lists q, path, List.count_eq_one_of_mem once inside⟩

def Place.spot : Place n N → Option (Spot n N)
  | .running c => some (.running c)
  | .pending c => some (.requeue c)
  | .list (.disp c pri) => some (.queued c pri)
  | .list (.wait wq) => some (.waiting wq)
  | .list (.hand w) => some (.hand w)
  | .list .reap => some .reap
  | _ => none

theorem Place.spot_running (stays : ∀ c q, p ≠ .leaving c q) : p.cpu = some c ↔ p.spot = some (.running c) := by
  cases p with
  | leaving c q => exact absurd rfl (stays c q)
  | list q => cases q <;> simp [Place.cpu, Place.spot]
  | unused | running | pending | taken | parked => simp [Place.cpu, Place.spot]

theorem Place.spot_requeue : p = .pending c ↔ p.spot = some (.requeue c) := by
  cases p with
  | list q => cases q <;> simp [Place.spot]
  | unused | running | leaving | pending | taken | parked => simp [Place.spot]

theorem Place.spot_list {spot : Spot n N} (stays : ∀ c q, p ≠ .leaving c q)
    (here : (Place.list q).spot = some spot) : p.queue = some q ↔ p.spot = some spot := by
  cases p with
  | leaving c q => exact absurd rfl (stays c q)
  | list q' =>
    cases q <;> cases here <;> cases q' <;> simp [Place.queue, Place.spot]
  | unused | running | pending | taken | parked =>
    cases q <;> cases here <;> simp [Place.queue, Place.spot]

section

variable (agrees : Agrees s places lists)
include agrees

/-- A thread that is not leaving is in the spot of its place and no other. -/
theorem Agrees.at_iff (stays : ∀ c q, places t ≠ .leaving c q) (spot : Spot n N) :
    At s t spot ↔ (places t).spot = some spot := by
  cases spot with
  | running c => rw [At, ← (agrees.cpu c).thread, Place.spot_running stays]
  | requeue c => rw [At, ← (agrees.cpu c).pending, Place.spot_requeue]
  | queued c pri | waiting wq | hand w
  | reap => rw [At, agrees.listed.linked, agrees.member, Place.spot_list stays rfl]

/-- A thread on its way to a list is guarded by the list's lock. -/
theorem Agrees.guards (place : places t = .leaving c q) :
    Guards (s.cpu c) t ∧ q.lock = (s.cpu c).release ∧ (s.cpu c).release.isSome = true := by
  have ok := agrees.cpu c
  have thread : (s.cpu c).thread = t := (ok.thread t).mp (by rw [place]; rfl)
  obtain ⟨leaves, carried⟩ := ok.settled.leaving (thread ▸ place)
  exact ⟨.inr ⟨thread, leaves⟩, carried⟩

theorem Agrees.one (live : Live s t) (awake : ∀ c, (s.cpu c).idle ≠ t)
    (free : ∀ c, ¬Guards (s.cpu c) t) : ∃! spot, At s t spot := by
  have stays (c : Fin n) (q : Queue n N) : places t ≠ .leaving c q := fun place => free c (agrees.guards place).1
  have found : ∃ spot, (places t).spot = some spot := by
    cases place : places t with
    | unused =>
      have fits := agrees.fits t
      obtain ⟨k, here⟩ := Option.isSome_iff_exists.mp live.1
      rw [place, here] at fits
      cases fits
    | list q =>
      cases q with
      | disp c pri => exact ⟨.queued c pri, rfl⟩
      | wait wq => exact ⟨.waiting wq, rfl⟩
      | reap => exact ⟨.reap, rfl⟩
      | hand w => exact ⟨.hand w, rfl⟩
      | drain r =>
        refine absurd ?_ (live.2 r)
        rw [agrees.listed.linked, agrees.member, place]
        rfl
    | running c => exact ⟨.running c, rfl⟩
    | leaving c q => exact absurd place (stays c q)
    | pending c => exact ⟨.requeue c, rfl⟩
    | taken c => exact absurd (.inl ((agrees.cpu c).taken t place)) (free c)
    | parked c => exact absurd ((agrees.cpu c).parked t place).symm (awake c)
  obtain ⟨spot, here⟩ := found
  refine ⟨spot, (agrees.at_iff stays spot).mpr here, fun other there => ?_⟩
  have there := (agrees.at_iff stays other).mp there
  rw [here] at there
  exact (Option.some.inj there).symm

theorem Agrees.fits_linked (linked : Linked s q t) : ∃ k, s.threads t = some k ∧ q.Fits k := by
  rw [agrees.listed.linked, agrees.member] at linked
  have fits := agrees.fits t
  cases here : s.threads t with
  | none =>
    rw [here] at fits
    rw [show places t = .unused from fits] at linked
    cases linked
  | some k =>
    refine ⟨k, rfl, ?_⟩
    rw [here] at fits
    cases place : places t with
    | list q' | leaving c q' =>
      rw [place] at fits linked
      cases linked
      exact fits
    | unused | running | pending | taken | parked =>
      rw [place] at linked
      cases linked

/-- A thread whose context is still in the registers is on no list but one whose lock is held. -/
theorem Agrees.locked (context : s.context t = some c)
    (linked : Linked s q t) : ∃ lock, q.lock = some lock ∧ s.held lock = true := by
  have ok := agrees.cpu c
  have held (lock : q.lock = (s.cpu c).release) (some' : (s.cpu c).release.isSome = true) :
      ∃ lock, q.lock = some lock ∧ s.held lock = true := by
    obtain ⟨l, release⟩ := Option.isSome_iff_exists.mp some'
    exact ⟨l, lock.trans release, ok.lock l release⟩
  rw [agrees.listed.linked, agrees.member] at linked
  rw [ok.context, Cpu.live] at context
  split at context
  next prev phase =>
    -- The switch has begun: the thread was replaced, its registers are not saved yet.
    subst context
    cases (ok.switching phase).2.2 with
    | pending here | parked here =>
      rw [here] at linked
      cases linked
    | list here lock some' =>
      rw [here] at linked
      cases linked
      exact held lock some'
  · have on := ok.settled.thread
    rw [context] at on
    cases place : places t with
    | leaving c' q' =>
      rw [place] at on linked
      cases on
      cases linked
      obtain ⟨_, lock, some'⟩ := agrees.guards place
      exact held lock some'
    | running =>
      rw [place] at linked
      cases linked
    | unused | list | pending | taken | parked =>
      rw [place] at on
      cases on

theorem Agrees.saved {prev : Fin N} (phase : (s.cpu c).phase = .switching prev) :
    s.context (s.cpu c).thread = none := by
  rw [Option.eq_none_iff_forall_ne_some]
  intro c' context
  by_cases same : c' = c
  · subst same
    rw [(agrees.cpu c').context, Cpu.live, phase] at context
    exact ((agrees.cpu c').switching phase).2.1 context
  · exact agrees.context_apart same context

end

end Spots

def twoCpus : Sys 2 5 where
  threads t := if t.val < 2 then some ⟨.running, none, 0, .sys, 0⟩ else none
  next _ := none
  head _ := none
  tail _ _ := none
  qactmap _ _ := false
  cpu c := ⟨c.castLE (by decide), c.castLE (by decide), none, none, .run⟩
  held _ := false
  context t := if low : t.val < 2 then some ⟨t.val, low⟩ else none

theorem twoCpus_booted : Booted twoCpus where
  idle _ := rfl
  quiet _ := ⟨rfl, rfl, rfl⟩
  own := by decide
  threads := by decide
  running t k here := by
    simp only [twoCpus] at here
    split at here
    · cases here
      rfl
    · cases here
  head _ := rfl
  tail _ _ := rfl
  map _ _ := rfl
  held _ := rfl
  context := by decide

end Kappara.Sched
