import Kappara.Sched.Wakeups

/-! Steps of a processor.

A thread goes to sleep or exits with the lock of its list, the processor takes the next
thread off its own or another's queue, or falls back on its idle thread, and hands the
locks over once the outgoing context is saved. -/

set_option autoImplicit false

namespace Kappara.Sched

open Function (update update_of_ne update_self)

variable {n N : Nat} {s s' : Sys n N} {places places' : Places n N} {lists lists' : Lists n N} {c : Fin n} {t : Fin N}
  {q : Queue n N} {w : Nat} {wq : WaitQueue N} {p : Place n N}

theorem Agrees.apart (agrees : Agrees s places lists) (own : (places t).owner = some c) (c' : Fin n) (other : c' ≠ c) :
    (s.cpu c').phase ≠ .switching t := by
  intro phase
  cases ((agrees.cpu c').switching phase).2.2 with
  | pending there | parked there =>
    rw [there] at own
    exact other (Option.some.inj own)
  | list there =>
    rw [there] at own
    cases own

variable {f : Kthread N → Kthread N} {requeue : Bool}

section Seen

variable {k : Cpu N} {held : Lock N → Bool} {context : Fin N → Option (Fin n)}

/-- What a processor says about the place of one thread. -/
structure Seen (k : Cpu N) (c : Fin n) (t : Fin N) (p : Place n N) : Prop where
  thread : p.cpu = some c ↔ k.thread = t
  pending : p = .pending c ↔ k.pendingRequeue = some t
  taken : p = .taken c → k.phase.taken = some t
  parked : p = .parked c → t = k.idle

theorem Seen.update (self : Seen k c t p) (rest : ∀ x, x ≠ t → Seen k c x (places x)) (x : Fin N) :
    Seen k c x (Function.update places t p x) := by
  by_cases same : x = t
  · rwa [same, update_self]
  · rw [update_of_ne same]
    exact rest x same

theorem Seen.ok (seen : ∀ t, Seen k c t (places t)) (idle : places k.idle = .running c ∨ places k.idle = .parked c)
    (settled : Settled places k c) (lock : ∀ l, k.release = some l → held l = true)
    (context' : ∀ t, context t = some c ↔ k.live = t) : CpuOk places k c held context :=
  ⟨fun t => (seen t).thread, fun t => (seen t).pending, fun t => (seen t).taken, idle, fun t => (seen t).parked,
    settled, lock, context'⟩

theorem CpuOk.idle_ne (ok : CpuOk places k c held context) (on : places t ≠ .running c)
    (parked : places t ≠ .parked c) : k.idle ≠ t := by
  rintro rfl
  exact ok.idle.elim on parked

end Seen

section

variable (agrees : Agrees s places lists)
include agrees

theorem Agrees.nothing_taken (phase : (s.cpu c).phase.taken = none) (x : Fin N) : places x ≠ .taken c := by
  intro here
  have found := (agrees.cpu c).taken x here
  rw [phase] at found
  cases found

theorem Agrees.locks (c' : Fin n) (l : Lock N) (other : c' ≠ c) (holds : (s.cpu c').release = some l) :
    s.held l = true ∧ (s.cpu c).release ≠ some l :=
  ⟨(agrees.cpu c').lock l holds, fun mine => other (agrees.lock c' c l holds mine)⟩

/-- A processor takes a step that moves no thread. -/
theorem Agrees.still {k : Cpu N} {held : Lock N → Bool} {context : Fin N → Option (Fin n)}
    (mine : CpuOk places k c held context)
    (locks : ∀ c' l, c' ≠ c → (s.cpu c').release = some l → held l = true ∧ k.release ≠ some l)
    (saved : ∀ t c', c' ≠ c → (context t = some c' ↔ s.context t = some c')) :
    Agrees { s with cpu := update s.cpu c k, held, context } places lists :=
  agrees.onCpu rfl ⟨agrees.listed.chained, agrees.listed.tail, agrees.listed.active⟩ agrees.member agrees.fits mine
    (fun _ => .inl rfl) locks saved

/-- The running thread links itself to a list under the list's lock, which it keeps. -/
theorem Agrees.leave {l : Lock N}
    (phase : (s.cpu c).phase = .run) (awake : (s.cpu c).thread ≠ (s.cpu c).idle) (lock : q.lock = some l)
    (free : s.held l = false) (plain : ∀ c pri, q ≠ .disp c pri) (fits : ∀ k, q.Fits (f k))
    (threads : s'.threads = (s.modify (s.cpu c).thread f).threads)
    (next : s'.next = update s.next (s.cpu c).thread (s.head q))
    (head : s'.head = update s.head q (some (s.cpu c).thread)) (tail : s'.tail = s.tail) (map : s'.qactmap = s.qactmap)
    (cpu : s'.cpu = update s.cpu c { s.cpu c with release := some l, phase := .leaving })
    (held : s'.held = update s.held l true) (context : s'.context = s.context) :
    ∃ places' lists', Agrees s' places' lists' := by
  have ok := agrees.cpu c
  have settled := ok.settled
  rw [Settled, phase] at settled
  obtain ⟨⟨place, _⟩, idle⟩ := settled
  have off : (places (s.cpu c).thread).queue = none := by rw [place]; rfl
  refine ⟨update places (s.cpu c).thread (.leaving c q), _, agrees.onCpu cpu
    (agrees.listed.other (agrees.listed.chained.push q (Member.absent agrees.member off)) ?_ head next tail map) ?_ ?_
    ?_ ?_ ?_ ?_⟩
  · exact fun c pri => update_of_ne (plain c pri).symm _ _
  · exact Member.into agrees.member off rfl fun x => by rw [List.mem_cons, or_comm]
  · rw [threads]
    apply Fits.update agrees.fits
    have old := agrees.fits (s.cpu c).thread
    rw [place] at old
    cases here : s.threads (s.cpu c).thread with
    | none =>
      rw [here] at old
      cases old
    | some k => exact fits k
  · refine Seen.ok (Seen.update ⟨by simp [Place.cpu], by simp [idle], by simp, by simp⟩ fun x _ => ?_) ?_ ?_ ?_ ?_
    · exact ⟨ok.thread x, ok.pending x, fun here => absurd here (agrees.nothing_taken (by rw [phase]; rfl) x),
        ok.parked x⟩
    · rw [update_of_ne awake.symm]
      exact ok.idle
    · exact ⟨⟨q, update_self _ _ _, lock, rfl⟩, idle⟩
    · intro l' mine
      cases mine
      rw [held, update_self]
    · intro x
      rw [context, ok.context, Cpu.live, Cpu.live, phase]
  · exact update_within (.inr (by rw [place]; rfl)) (.inr rfl) (agrees.apart (by rw [place]; rfl))
  · intro c' l' _ holds
    have taken := (agrees.cpu c').lock l' holds
    have other : l' ≠ l := by
      rintro rfl
      rw [free] at taken
      cases taken
    exact ⟨by rwa [held, update_of_ne other], by simpa using other.symm⟩
  · intro x c' _
    rw [context]

theorem Agrees.rephase {phase : Phase N}
    (settled : Settled places { s.cpu c with phase } c) (taken : ∀ x, places x = .taken c → phase.taken = some x)
    (live : ({ s.cpu c with phase } : Cpu N).live = (s.cpu c).live) : Agrees (s.setPhase c phase) places lists := by
  have ok := agrees.cpu c
  refine agrees.still ⟨ok.thread, ok.pending, taken, ok.idle, ok.parked, settled, ok.lock,
    fun x => ?_⟩ agrees.locks fun _ _ _ => Iff.rfl
  rw [live]
  exact ok.context x

theorem Agrees.unlock (runs : places (s.cpu c).thread = .running c)
    (pending : (s.cpu c).pendingRequeue = none) (taken : (s.cpu c).phase.taken = none)
    (live : (s.cpu c).live = (s.cpu c).thread) : Agrees (unlock s c) places lists := by
  have ok := agrees.cpu c
  refine agrees.still ?_ ?_ fun _ _ _ => Iff.rfl
  · refine ⟨ok.thread, ok.pending, ?_, ok.idle, ok.parked, ⟨⟨runs, rfl⟩, pending⟩, ?_, fun x => ?_⟩
    · exact fun x here => absurd here (agrees.nothing_taken taken x)
    · exact fun l none => by cases none
    · change s.context x = some c ↔ (s.cpu c).thread = x
      rw [ok.context, live]
  · intro c' l other holds
    refine ⟨?_, by simp⟩
    have held := (agrees.cpu c').lock l holds
    cases mine : (s.cpu c).release with
    | none => exact held
    | some l' =>
      have differs : l ≠ l' := by
        rintro rfl
        exact other (agrees.lock c' c l holds mine)
      simpa only [update_of_ne differs] using held

theorem Agrees.take {v : Fin n} (phase : (s.cpu c).phase = .empty requeue)
    (popped : dispqPopLocked s v = some (t, s')) :
    ∃ places' lists', Agrees (s'.setPhase c (.found t requeue)) places' lists' := by
  obtain ⟨pri, rest, first, rfl⟩ := dispqPopLocked_some agrees.listed popped
  have ok := agrees.cpu c
  have inside : t ∈ lists (.disp v pri) := by simp [first]
  obtain ⟨place, apart⟩ := agrees.resting inside fun l mine => by cases mine
  have settled := ok.settled
  rw [Settled, phase] at settled
  have differs : (s.cpu c).thread ≠ t := by
    intro same
    have on := (ok.thread t).mpr same
    rw [place] at on
    cases on
  have idle : (s.cpu c).idle ≠ t := ok.idle_ne (by simp [place]) (by simp [place])
  have stays : update places t (.taken c) (s.cpu c).thread = places (s.cpu c).thread := update_of_ne differs _ _
  have popped := agrees.listed.pop first
  have cpu : ((dispqPopAt s v pri t).setPhase c (.found t requeue)).cpu =
      update s.cpu c { s.cpu c with phase := .found t requeue } := rfl
  refine ⟨update places t (.taken c), _, agrees.onCpu cpu ⟨popped.chained, popped.tail, popped.active⟩ ?_ ?_ ?_ ?_ ?_
    fun _ _ _ => Iff.rfl⟩
  · exact Member.out agrees.member (by rw [place]; rfl) rfl (mem_rest (agrees.listed.chained.once _) first)
  · exact Fits.move agrees.fits (by simp [place]) fun k ready => by rwa [place] at ready
  · refine Seen.ok (Seen.update ⟨by simpa [Place.cpu] using differs, by simp [settled.2],
      fun _ => rfl, by simp⟩ fun x _ => ?_) ?_ ?_ ?_ ?_
    · exact ⟨ok.thread x, ok.pending x, fun here => absurd here (agrees.nothing_taken (by rw [phase]; rfl) x),
        ok.parked x⟩
    · rw [update_of_ne idle]
      exact ok.idle
    · refine ⟨?_, settled.2, .inl (update_self _ _ _)⟩
      cases requeue with
      | true => exact ⟨stays.trans settled.1.1, settled.1.2⟩
      | false =>
        obtain ⟨q, leaves, lock⟩ := settled.1
        exact ⟨q, stays.trans leaves, lock⟩
    · exact ok.lock
    · intro x
      have context := ok.context x
      rw [Cpu.live, phase] at context
      exact context
  · exact update_within (.inl (by rw [place]; rfl)) (.inr rfl) fun c' _ => apart c'
  · exact agrees.locks

theorem Agrees.replace {next : Fin N} {p : Place n N} {pending : Option (Fin N)}
    (phase : (s.cpu c).phase = .found next requeue) (queue : p.queue = (places (s.cpu c).thread).queue)
    (off : p.cpu = none) (near : Near c p) (kept : p = .pending c ↔ pending = some (s.cpu c).thread)
    (only : ∀ x, pending = some x → x = (s.cpu c).thread) (parked : p = .parked c ↔ (s.cpu c).thread = (s.cpu c).idle)
    (taken : p ≠ .taken c) (left : Left (fun _ => p) (s.cpu c) c (s.cpu c).thread)
    (lists' : Listed s' lists) (cpu : s'.cpu = update s.cpu c
      { s.cpu c with thread := next, pendingRequeue := pending, phase := .switching (s.cpu c).thread })
    (held : s'.held = s.held) (context : s'.context = s.context)
    (fits : ∀ x, (update (update places (s.cpu c).thread p) next (.running c) x).Fits (s'.threads x)) :
    ∃ places' lists', Agrees s' places' lists' := by
  have ok := agrees.cpu c
  have settled := ok.settled
  rw [Settled, phase] at settled
  obtain ⟨_, nothing, chosen⟩ := settled
  have chosenOff : (places next).cpu = none ∧ (places next).queue = none ∧ (places next).owner = some c := by
    rcases chosen with here | ⟨_, here⟩
    · rw [here]
      exact ⟨rfl, rfl, rfl⟩
    · rw [here]
      exact ⟨rfl, rfl, rfl⟩
  have on : (places (s.cpu c).thread).cpu = some c := ok.settled.thread
  have differs : next ≠ (s.cpu c).thread := by
    intro same
    rw [same, on] at chosenOff
    cases chosenOff.1
  have prev : update (update places (s.cpu c).thread p) next (.running c) (s.cpu c).thread = p := by
    rw [update_of_ne differs.symm, update_self]
  have rest (x : Fin N) (one : x ≠ next) (two : x ≠ (s.cpu c).thread) :
      update (update places (s.cpu c).thread p) next (.running c) x = places x := by
    rw [update_of_ne one, update_of_ne two]
  refine ⟨_, lists, agrees.onCpu cpu lists' ?_ fits ?_ ?_ ?_ ?_⟩
  · apply Member.stay
    · exact Member.stay agrees.member queue
    · rw [update_of_ne differs, chosenOff.2.1]
      rfl
  · refine Seen.ok (Seen.update ⟨by simp [Place.cpu], ?_, by simp, by simp⟩ fun x one => ?_) ?_ ?_ ?_ ?_
    · exact iff_of_false (by simp) fun here => differs (only _ here)
    · by_cases two : x = (s.cpu c).thread
      · subst two
        rw [update_self]
        exact ⟨by simpa [off] using differs, kept, fun here => absurd here taken, parked.mp⟩
      · rw [update_of_ne two]
        refine ⟨?_, ?_, fun here => ?_, ok.parked x⟩
        · rw [ok.thread]
          simp [Ne.symm one, Ne.symm two]
        · rw [ok.pending, nothing]
          exact iff_of_false (by simp) fun here => two (only _ here)
        · have found := ok.taken x here
          rw [phase] at found
          exact absurd (Option.some.inj found).symm one
    · by_cases one : (s.cpu c).idle = next
      · exact .inl (by rw [one, update_self])
      · by_cases two : (s.cpu c).idle = (s.cpu c).thread
        · exact .inr (by rw [two, prev, parked.mpr two.symm])
        · rw [rest _ one two]
          exact ok.idle
    · exact ⟨update_self _ _ _, differs.symm, left.congr prev rfl⟩
    · rw [held]
      exact ok.lock
    · intro x
      have old := ok.context x
      rw [Cpu.live, phase] at old
      rw [context]
      exact old
  · intro x
    by_cases one : x = next
    · subst one
      rw [update_self]
      exact .inr ⟨.inr chosenOff.2.2, .inr rfl, agrees.apart chosenOff.2.2⟩
    · by_cases two : x = (s.cpu c).thread
      · rw [two, prev]
        have own := Place.owner_of_cpu on
        exact .inr ⟨.inr own, near, agrees.apart own⟩
      · exact .inl (rest x one two)
  · rw [held]
    exact agrees.locks
  · intro x c' _
    rw [context]

end

theorem fits_map {o : Option (Kthread N)} {old : Place n N} (fits : old.Fits o) (used : old ≠ .unused)
    (new : ∀ k, p.Fits (some (f k))) : p.Fits (o.map f) := by
  cases o with
  | none => exact absurd fits used
  | some k => exact new k

section

variable (agrees : Agrees s places lists)
include agrees

theorem Agrees.commitTo {next : Fin N}
    (phase : (s.cpu c).phase = .found next requeue) : Good (commitTo s c next requeue) := by
  have ok := agrees.cpu c
  have settled := ok.settled
  rw [Settled, phase] at settled
  obtain ⟨out, _, chosen⟩ := settled
  have onCpu : (places (s.cpu c).thread).cpu = some c := ok.settled.thread
  have differs : next ≠ (s.cpu c).thread := by
    rintro rfl
    rcases chosen with here | ⟨_, here⟩ <;> rw [here] at onCpu <;> cases onCpu
  have used : places next ≠ .unused := by
    rcases chosen with here | ⟨_, here⟩ <;> simp [here]
  have listed (s' : Sys n N) (head : s'.head = s.head) (links : s'.next = s.next) (tail : s'.tail = s.tail)
      (map : s'.qactmap = s.qactmap) : Listed s' lists :=
        agrees.listed.other agrees.listed.chained (fun _ _ => rfl) head links tail map
  rw [Sched.commitTo]
  dsimp only
  rw [if_neg differs]
  by_cases back : (requeue && (s.cpu c).thread ≠ (s.cpu c).idle) = true
  · rw [if_pos back, if_pos back]
    obtain ⟨rfl, awake⟩ := (Bool.and_eq_true _ _).mp back
    have awake : (s.cpu c).thread ≠ (s.cpu c).idle := by simpa using awake
    have place : places (s.cpu c).thread = .running c := out.1
    refine agrees.replace (p := .pending c) phase (by rw [place]; rfl) rfl (.inr rfl) (by simp) (by simp [eq_comm])
      (by simpa using awake) (by simp) (.pending rfl) (listed _ rfl rfl rfl rfl) rfl rfl rfl ?_
    apply Fits.update (Fits.update agrees.fits ?_)
    · change (Place.running c).Fits ((update s.threads _ _ next).map _)
      rw [update_of_ne differs]
      exact fits_map (agrees.fits next) used fun _ => rfl
    · exact fits_map (agrees.fits _) (by simp [place]) fun _ => rfl
  · rw [if_neg back, if_neg back]
    have runs (threads : Fin N → Option (Kthread N)) (p : Place n N)
      (fits : ∀ k, (places (s.cpu c).thread).Fits (some k) → p.Fits (some k))
        (x : Fin N) : (update (update places (s.cpu c).thread p) next (.running c) x).Fits
          ((s.modify next fun t => { t with state := .running }).threads x) := by
      apply Fits.update (Fits.move agrees.fits ?_ fits)
      · exact fits_map (agrees.fits next) used fun _ => rfl
      · intro none
        rw [none] at onCpu
        cases onCpu
    cases requeue with
    | true =>
      have idle : (s.cpu c).thread = (s.cpu c).idle := by simpa using back
      have place : places (s.cpu c).thread = .running c := out.1
      refine agrees.replace (p := .parked c) phase (by rw [place]; rfl) rfl (.inr rfl) (by simp) (by simp)
        (by simpa using idle) (by simp) (.parked rfl) (listed _ rfl rfl rfl rfl) rfl rfl rfl (runs s.threads _ ?_)
      intro k fits
      rwa [place] at fits
    | false =>
      obtain ⟨q, place, lock, some⟩ := out
      have awake : (s.cpu c).thread ≠ (s.cpu c).idle := (ok.idle_ne (by simp [place]) (by simp [place])).symm
      refine agrees.replace (p := .list q) phase (by rw [place]; rfl) rfl (.inl rfl) (by simp) (by simp)
        (by simpa using awake) (by simp) (.list rfl lock some) (listed _ rfl rfl rfl rfl) rfl rfl rfl
          (runs s.threads _ ?_)
      intro k fits
      rwa [place] at fits

theorem Agrees.commit (made : commit s c = some s') : Good s' := by
  rw [Sched.commit] at made
  split at made
  next next requeue phase =>
    cases made
    exact agrees.commitTo phase
  · cases made

/-- The thread of a processor is in no other processor's registers. -/
theorem Agrees.context_apart {c' : Fin n} (other : c' ≠ c) : s.context (s.cpu c).thread ≠ some c' := by
  rw [Ne, (agrees.cpu c').context, Cpu.live]
  have on := (agrees.cpu c).settled.thread
  split
  next prev phase =>
    rintro rfl
    exact agrees.apart (Place.owner_of_cpu on) c' other phase
  · intro same
    have there := (agrees.cpu c').settled.thread
    rw [same, on] at there
    exact other (Option.some.inj there).symm

/-- The outgoing thread's registers are saved before the incoming one's are loaded. -/
theorem Agrees.contextSwitch (made : contextSwitch s c = some s') : Good s' := by
  rw [Sched.contextSwitch] at made
  split at made
  next prev phase =>
    cases made
    have ok := agrees.cpu c
    obtain ⟨runs, other, _⟩ := ok.switching phase
    have live (x : Fin N) : s.context x = some c ↔ prev = x := by
      have context := ok.context x
      rwa [Cpu.live, phase] at context
    refine ⟨places, lists, agrees.still ?_ agrees.locks ?_⟩
    · refine ⟨ok.thread, ok.pending, ?_, ok.idle, ok.parked, runs, ok.lock, fun x => ?_⟩
      · exact fun x here => absurd here (agrees.nothing_taken (by rw [phase]; rfl) x)
      · change update (update s.context prev none) (s.cpu c).thread (some c) x = some c ↔ (s.cpu c).thread = x
        by_cases same : x = (s.cpu c).thread
        · simp [same]
        · rw [update_of_ne same]
          by_cases left : x = prev
          · simpa [left] using Ne.symm other
          · rw [update_of_ne left, live]
            simp [Ne.symm left, Ne.symm same]
    · intro x c' other
      have differs : some c ≠ some c' := fun equal => other (Option.some.inj equal).symm
      change update (update s.context prev none) (s.cpu c).thread (some c) x = some c' ↔ s.context x = some c'
      by_cases same : x = (s.cpu c).thread
      · rw [same, update_self]
        exact iff_of_false differs (agrees.context_apart other)
      · rw [update_of_ne same]
        by_cases left : x = prev
        · rw [left, update_self, (live prev).mpr rfl]
          exact iff_of_false (by simp) differs
        · rw [update_of_ne left]
  · cases made

theorem Agrees.drain (made : drain s c = some s') : Good s' := by
  rw [Sched.drain] at made
  split at made
  next phase =>
    have ok := agrees.cpu c
    have runs := ok.settled
    rw [Settled, phase] at runs
    have none (x : Fin N) := agrees.nothing_taken (by rw [phase]; rfl) x
    have live (x : Fin N) : s.context x = some c ↔ (s.cpu c).thread = x := by
      have context := ok.context x
      rwa [Cpu.live, phase] at context
    split at made
    next empty =>
      cases made
      refine ⟨places, lists, agrees.still ?_ agrees.locks fun _ _ _ => Iff.rfl⟩
      refine ⟨ok.thread, fun x => ?_, fun x here => absurd here (none x), ok.idle, ok.parked, ⟨runs, rfl⟩,
        ok.lock, live⟩
      rw [ok.pending, empty]
    next t kept =>
      cases made
      have place := (ok.pending t).mpr kept
      have off : (places t).queue = .none := by rw [place]; rfl
      have differs : (s.cpu c).thread ≠ t := by
        intro same
        rw [same, place] at runs
        cases runs
      rw [dispqPushLocked]
      generalize dispqClampPri _ = pri
      have quiet : Listed (s.setCpu c { s.cpu c with pendingRequeue := .none, phase := .drained }) lists :=
        ⟨agrees.listed.chained, agrees.listed.tail, agrees.listed.active⟩
      refine ⟨_, _, agrees.onCpu rfl (quiet.push (Member.absent agrees.member off) c pri)
        (Member.append agrees.member off (.disp c pri)) ?_ ?_ ?_ agrees.locks fun _ _ _ => Iff.rfl⟩
      · exact Fits.move agrees.fits (by simp [place]) fun k ready => by rwa [place] at ready
      · refine Seen.ok (Seen.update ⟨by simpa [Place.cpu] using differs, by simp, by simp, by simp⟩ fun x other => ?_)
          ?_ ?_ ok.lock live
        · refine ⟨ok.thread x, ?_, fun here => absurd here (none x), ok.parked x⟩
          rw [ok.pending, kept]
          simpa using Ne.symm other
        · rw [update_of_ne (ok.idle_ne (by simp [place]) (by simp [place]))]
          exact ok.idle
        · exact ⟨(update_of_ne differs _ _).trans runs, rfl⟩
      · exact update_within (.inr (by rw [place]; rfl)) (.inl rfl) (agrees.apart (by rw [place]; rfl))
  · cases made

theorem Agrees.finish (made : finish s c = some s') : Good s' := by
  rw [Sched.finish] at made
  split at made
  next phase =>
    cases made
    have settled := (agrees.cpu c).settled
    rw [Settled, phase] at settled
    exact ⟨places, lists, agrees.unlock settled.1 settled.2 (by rw [phase]; rfl) (by rw [Cpu.live, phase])⟩
  · cases made

/-- Where no thread is left, the outgoing one runs on, or the idle thread is chosen. -/
theorem Agrees.giveUp (phase : (s.cpu c).phase = .empty requeue) : Good (giveUp s c requeue) := by
  have ok := agrees.cpu c
  have settled := ok.settled
  rw [Settled, phase] at settled
  have none (x : Fin N) := agrees.nothing_taken (by rw [phase]; rfl) x
  refine ⟨places, lists, ?_⟩
  rw [Sched.giveUp]
  cases requeue with
  | true => exact agrees.unlock settled.1.1 settled.2 (by rw [phase]; rfl) (by rw [Cpu.live, phase])
  | false =>
    apply agrees.rephase
    · refine ⟨settled.1, settled.2, .inr ⟨rfl, ?_⟩⟩
      obtain ⟨q, leaves, _⟩ := settled.1
      rcases ok.idle with runs | parked
      · have same := (ok.thread (s.cpu c).idle).mp (by rw [runs]; rfl)
        rw [← same, leaves] at runs
        cases runs
      · exact parked
    · exact fun x here => absurd here (none x)
    · rw [Cpu.live, Cpu.live, phase]

theorem Agrees.trySteal {victim : Option (Fin n)} (made : trySteal s c victim = some s') : Good s' := by
  rw [Sched.trySteal] at made
  split at made
  next requeue phase =>
    split at made
    · cases made
      exact agrees.giveUp phase
    · split at made
      · cases made
      · split at made
        · cases made
          exact agrees.giveUp phase
        next t s' popped =>
          cases made
          exact agrees.take phase popped
  · cases made

/-- The first section of the switch, from a thread that yields or one that has left. -/
theorem Agrees.enter (phase : (s.cpu c).phase = if requeue then .run else .leaving) : Good (enter s c requeue) := by
  have settled := (agrees.cpu c).settled
  have begun : Agrees (s.setPhase c (.empty requeue)) places lists := by
    apply agrees.rephase
    · cases requeue with
      | true | false =>
        rw [Settled, phase] at settled
        exact settled
    · exact fun x here => absurd here (agrees.nothing_taken (by rw [phase]; cases requeue <;> rfl) x)
    · rw [Cpu.live, Cpu.live, phase]
      cases requeue <;> rfl
  have empty : ((s.setPhase c (.empty requeue)).cpu c).phase = .empty requeue := by simp [Sys.setPhase, Sys.setCpu]
  rw [Sched.enter]
  split
  · exact ⟨places, lists, begun⟩
  next t s' popped =>
    obtain ⟨places', lists', taken⟩ := begun.take empty popped
    exact taken.commitTo (by simp [Sys.setPhase, Sys.setCpu])

theorem Agrees.sleep (awake : (s.cpu c).thread ≠ (s.cpu c).idle)
    (made : kthreadSleepOnLocked s c wq = some s') : Good s' := by
  obtain ⟨can, ⟨⟩⟩ := Option.ite_none_right_eq_some.mp made
  exact agrees.leave can.1 awake (q := .wait wq) rfl can.2 (fun _ _ equal => by cases equal) (fun _ => ⟨rfl, rfl⟩) rfl
    rfl rfl rfl rfl rfl rfl rfl

theorem Agrees.exit (awake : (s.cpu c).thread ≠ (s.cpu c).idle) (made : kthreadExit s c w = some s') : Good s' := by
  obtain ⟨can, made⟩ := Option.ite_none_right_eq_some.mp made
  obtain ⟨run, free, open', empty⟩ := can
  have woken (mid : Sys n N) (made : Sched.wakeChain mid Kthread.ready .threadExit w = some s') (left : Good mid)
      (free : mid.held (.sq .threadExit) = false) (empty : mid.head (.hand w) = none) : Good s' := by
    obtain ⟨places', lists', left⟩ := left
    exact left.wakeChain free empty (fun _ => rfl) made
  apply woken _ made
  · exact agrees.leave run awake (q := .reap) rfl free (fun _ _ equal => by cases equal)
      (f := fun k => { k with state := .dead }) (fun _ => rfl) rfl rfl rfl rfl rfl rfl rfl rfl
  · simpa using open'
  · simpa [Sys.isFree, Sys.setHead, Sys.setNext, Sys.modify] using empty

end

end Kappara.Sched
