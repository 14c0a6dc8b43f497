import Kappara.Sched.Places

/-! The dispatch queues of a processor as priority FIFOs, with cpu_maxrunpri and cpu_nrunnable, which the other
processors read. -/

set_option autoImplicit false

namespace Kappara.Sched

open Function (update update_of_ne update_self)

variable {n N : Nat} {c : Fin n} {t : Fin N} {map : Fin 64 → Bool}

structure Dispatch (n N : Nat) where
  sys : Sys n N
  maxrunpri : Int
  nrunnable : Nat

def dispqRecomputeMax (map : Fin 64 → Bool) : Int := (highest map).elim (-1) fun p => p

namespace Dispatch

variable (d : Dispatch n N) (c : Fin n) (t : Fin N)

def pri : Fin 64 := dispqClampPri ((d.sys.threads t).elim 0 (·.pri))

def push : Dispatch n N where
  sys := dispqPushLocked d.sys c t
  maxrunpri := if d.maxrunpri < d.pri t then d.pri t else d.maxrunpri
  nrunnable := d.nrunnable + 1

def pop : Option (Fin N) × Dispatch n N :=
  match dispqPopLocked d.sys c with
  | none => (none, d)
  | some (t, s) => (some t,
    { sys := s
      maxrunpri := if (d.sys.next t).isNone then dispqRecomputeMax (s.qactmap c) else d.maxrunpri
      nrunnable := d.nrunnable - 1 })

end Dispatch

/-- The threads in the queues with the clamped priorities they had when they were pushed, oldest first. -/
abbrev Pushed (N : Nat) := List (Fin N × Fin 64)

inductive DispOp (N : Nat) where
  | push (t : Fin N)
  | pop
  | setPri (t : Fin N) (pri : Int)

/-- The oldest entry of the highest priority. -/
def earliest (q : Pushed N) : Option (Fin N × Fin 64) := q.find? fun e => q.all fun e' => e'.2 ≤ e.2

section

variable (c : Fin n) (s : Dispatch n N × Pushed N)

def dispStep : DispOp N → Option (Dispatch n N × Pushed N)
  | .push t => some (s.1.push c t, s.2 ++ [(t, s.1.pri t)])
  | .pop => some ((s.1.pop c).2, (earliest s.2).elim s.2 s.2.erase)
  | .setPri t pri => some ({ s.1 with sys := s.1.sys.modify t fun k => { k with pri := pri } }, s.2)

def unqueued : DispOp N → Bool
  | .push t => s.2.all (·.1 ≠ t)
  | _ => true

def fifo (q : Pushed N) (p : Fin 64) : List (Fin N) := (q.filter (·.2 = p)).map (·.1)

/-- The highest bit set, or KSCHED_PRI_IDLE. -/
def Highest (map : Fin 64 → Bool) (max : Int) : Prop :=
  (∀ p, map p = true → (p : Int) ≤ max) ∧ (max = -1 ∨ ∃ p, map p = true ∧ max = p)

structure Idle : Prop where
  head : ∀ q, s.1.sys.head q = none
  tail : ∀ c p, s.1.sys.tail c p = none
  map : ∀ c p, s.1.sys.qactmap c p = false
  max : s.1.maxrunpri = -1
  count : s.1.nrunnable = 0
  queued : s.2 = []

def fifos (c : Fin n) (q : Pushed N) (l : Queue n N) : List (Fin N) :=
  match l with
  | .disp c' p => if c' = c then fifo q p else []
  | _ => []

/-- The queues hold what was pushed, by its priority, and the summaries agree. -/
structure PriorityFifos : Prop where
  listed : Listed s.1.sys (fifos c s.2)
  max : Highest (s.1.sys.qactmap c) s.1.maxrunpri
  count : s.1.nrunnable = s.2.length

end

theorem highest_spec {p : Fin 64} (found : highest map = some p) :
    map p = true ∧ ∀ p', map p' = true → p' ≤ p := by
  obtain ⟨set, above, below, split, off⟩ := List.find?_eq_some_iff_append.mp found
  have ordered := List.pairwise_reverse.mpr (List.pairwise_lt_finRange 64)
  have all (p' : Fin 64) : p' ∈ (List.finRange 64).reverse := by simp
  rw [split] at ordered all
  refine ⟨set, fun p' set' => ?_⟩
  rcases List.mem_append.mp (all p') with higher | lower
  · simpa [set'] using off p' higher
  · rcases List.mem_cons.mp lower with rfl | lower
    · exact le_rfl
    · exact ((List.pairwise_cons.mp (List.pairwise_append.mp ordered).2.1).1 p' lower).le

theorem highest_none (found : highest map = none) (p : Fin 64) : map p = false := by
  simpa using List.find?_eq_none.mp found p (by simp)

theorem dispqRecomputeMax_highest (map : Fin 64 → Bool) : Highest map (dispqRecomputeMax map) := by
  cases found : highest map with
  | none => simp [Highest, dispqRecomputeMax, found, highest_none found]
  | some p =>
    obtain ⟨set, above⟩ := highest_spec found
    rw [dispqRecomputeMax, found]
    exact ⟨fun p' set' => Int.ofNat_le.mpr (above p' set'), .inr ⟨p, set, rfl⟩⟩

theorem Highest.set {max : Int} (old : Highest map max) (p : Fin 64) :
    Highest (update map p true) (if max < p then p else max) := by
  unfold Highest at *
  grind

theorem earliest_eq {q : Pushed N} {e : Fin N × Fin 64} (inside : e ∈ q) (above : ∀ e' ∈ q, e'.2 ≤ e.2) :
    earliest q = (q.filter (·.2 = e.2)).head? := by
  rw [earliest, ← List.head?_filter]
  congr 1
  apply List.filter_congr
  intro e' inside'
  rw [Bool.eq_iff_iff, List.all_eq_true, decide_eq_true_iff]
  constructor
  · exact fun top => le_antisymm (above e' inside') (of_decide_eq_true (top e inside))
  · exact fun same e'' inside'' => decide_eq_true (same ▸ above e'' inside'')

theorem fifos_update {q q' : Pushed N} {p : Fin 64} (other : ∀ p' ≠ p, fifo q' p' = fifo q p') :
    fifos c q' = update (fifos c q) (.disp c p) (fifo q' p) := by
  funext l
  by_cases same : l = .disp c p
  · rw [same, update_self, fifos, if_pos rfl]
  · rw [update_of_ne same]
    cases l with
    | disp c' p' =>
      rw [fifos, fifos]
      split
      next here => rw [other p' fun equal => same (by rw [here, equal])]
      · rfl
    | wait | reap | hand | drain => rfl

section Runs

variable {s s' : Dispatch n N × Pushed N}

theorem PriorityFifos.push (kept : PriorityFifos c s) (fresh : ∀ e ∈ s.2, e.1 ≠ t) :
    PriorityFifos c (s.1.push c t, s.2 ++ [(t, s.1.pri t)]) := by
  have absent (l : Queue n N) : t ∉ fifos c s.2 l := by
    simp only [fifos, fifo]
    grind
  constructor
  · have pushed : Listed (s.1.push c t).sys _ := kept.listed.push absent c (s.1.pri t)
    rw [fifos_update (q := s.2) (p := s.1.pri t) fun p' other => by simp [fifo, other.symm]]
    simpa [fifos, fifo] using pushed
  · have raised := kept.max.set (s.1.pri t)
    simpa [Dispatch.push, dispqPushLocked, dispqPushAt, update₂, Dispatch.pri] using raised
  · simp [Dispatch.push, kept.count]

theorem PriorityFifos.pop (kept : PriorityFifos c s) : (s.1.pop c).1 = (earliest s.2).map (·.1) ∧
    PriorityFifos c ((s.1.pop c).2, (earliest s.2).elim s.2 s.2.erase) := by
  have active (p : Fin 64) : s.1.sys.qactmap c p = true ↔ s.2.filter (·.2 = p) ≠ [] := by
    rw [kept.listed.active, fifos, if_pos rfl, fifo]
    simp
  have mine (e : Fin N × Fin 64) (inside : e ∈ s.2) : s.1.sys.qactmap c e.2 = true :=
    (active e.2).mpr (List.ne_nil_of_mem (List.mem_filter.mpr ⟨inside, decide_eq_true rfl⟩))
  cases found : highest (s.1.sys.qactmap c) with
  | none =>
    have empty : s.2 = [] := by
      apply List.eq_nil_iff_forall_not_mem.mpr
      intro e inside
      cases (mine e inside).symm.trans (highest_none found e.2)
    have same : s.1.pop c = (none, s.1) := by simp [Dispatch.pop, dispqPopLocked, found]
    have last : earliest s.2 = none := by rw [empty]; rfl
    rw [same, last]
    exact ⟨rfl, kept⟩
  | some p =>
    obtain ⟨set, above⟩ := highest_spec found
    obtain ⟨e, rest, first⟩ := List.exists_cons_of_ne_nil ((active p).mp set)
    have inside : e ∈ s.2.filter (·.2 = p) := first ▸ List.mem_cons_self
    rw [List.mem_filter, decide_eq_true_iff] at inside
    obtain ⟨inside, rfl⟩ := inside
    have top : earliest s.2 = some e := by
      rw [earliest_eq inside fun e' inside' => above e'.2 (mine e' inside'), first, List.head?_cons]
    have list : fifos c s.2 (.disp c e.2) = e.1 :: rest.map (·.1) := by
      rw [fifos, if_pos rfl, fifo, first, List.map_cons]
    have path := kept.listed.chained.path (.disp c e.2)
    rw [list] at path
    have popped : dispqPopLocked s.1.sys c = some (e.1, dispqPopAt s.1.sys c e.2 e.1) := by
      simp [dispqPopLocked, found, path.1]
    rw [top, Dispatch.pop, popped]
    refine ⟨rfl, ?_, ?_, ?_⟩
    · rw [Option.elim_some, fifos_update (p := e.2) fun p' other => ?_]
      · rw [fifo, ← List.erase_filter, first, List.erase_cons_head]
        exact kept.listed.pop list
      · rw [fifo, ← List.erase_filter, List.erase_of_not_mem (by simp [other.symm]), fifo]
    · dsimp only
      split
      · exact dispqRecomputeMax_highest _
      next more => simpa [dispqPopAt, more] using kept.max
    · simp [kept.count, List.length_erase_of_mem inside]

theorem PriorityFifos.step {op : DispOp N} (kept : PriorityFifos c s) (allowed : unqueued s op = true)
    (made : dispStep c s op = some s') : PriorityFifos c s' := by
  cases op with
  | push t =>
    cases made
    exact kept.push (by simpa [unqueued] using allowed)
  | pop =>
    cases made
    exact kept.pop.2
  | setPri t pri =>
    cases made
    exact ⟨⟨kept.listed.chained, kept.listed.tail, kept.listed.active⟩, kept.max, kept.count⟩

theorem Idle.start (idle : Idle s) : PriorityFifos c s := by
  have none : fifos c s.2 = fun _ => [] := by
    funext l
    simp only [fifos, fifo, idle.queued]
    grind
  refine ⟨?_, ?_, by rw [idle.count, idle.queued, List.length_nil]⟩
  · rw [none]
    exact ⟨⟨idle.head, fun _ => List.nodup_nil, fun _ _ _ inside => by cases inside⟩, idle.tail, idle.map⟩
  · rw [idle.max]
    refine ⟨fun p set => ?_, .inl rfl⟩
    cases set.symm.trans (idle.map c p)

/-- As long as no thread is pushed while it is queued, the queues of a processor are FIFOs by the priority at the push,
and a pop takes the oldest thread of the highest priority. -/
theorem dispatch_priority_fifos (c : Fin n) (s : Dispatch n N × Pushed N)
    (reached : Run.Reach (dispStep c) (fun s op => unqueued s op = true) Idle s) :
    PriorityFifos c s ∧ (s.1.pop c).1 = (earliest s.2).map (·.1) := by
  have kept : PriorityFifos c s := reached.invariant (fun _ => Idle.start) fun _ _ _ => PriorityFifos.step
  exact ⟨kept, kept.pop.1⟩

end Runs

def idleCpu : Dispatch 1 2 × Pushed 2 where
  fst := ⟨⟨fun _ => some ⟨.ready, none, 0, .sys, 0⟩, fun _ => none, fun _ => none, fun _ _ => none, fun _ _ => false,
    fun _ => ⟨0, 0, none, none, .run⟩, fun _ => false, fun _ => none⟩, -1, 0⟩
  snd := []

theorem idleCpu_idle : Idle idleCpu := ⟨fun _ => rfl, fun _ _ => rfl, fun _ _ => rfl, rfl, rfl, rfl⟩

/-- The second thread is pushed at a higher priority and popped first. -/
theorem dispatch_priority_fifos_two : ∃ s : Dispatch 1 2 × Pushed 2, s.2 = [(0, 0), (1, 30)] ∧ PriorityFifos 0 s ∧
    (s.1.pop 0).1 = some 1 := by
  obtain ⟨s, -, two, fifos, popped⟩ := Run.Reach.found_with (P := fun s => s.2 = [(0, 0), (1, 30)])
    (dispatch_priority_fifos 0) [.push 0, .setPri 1 30, .push 1] idleCpu_idle (by decide +kernel)
  rw [two] at popped
  exact ⟨s, two, fifos, popped⟩

/-- A thread pushed again while it is queued cuts off the one behind it. -/
theorem repush_loses_thread : ∃ s : Dispatch 1 2 × Pushed 2, Run.Reach (dispStep 0) (fun _ _ => True) Idle s ∧
    ¬ PriorityFifos 0 s := by
  obtain ⟨s, reached, inactive, some⟩ : ∃ s : Dispatch 1 2 × Pushed 2, Run.Reach (dispStep 0) (fun _ _ => True) Idle s ∧
      s.1.sys.qactmap 0 0 = false ∧ (fifo s.2 0).isEmpty = false :=
    Run.Reach.found [.push 0, .push 1, .push 0, .pop] idleCpu_idle (by decide +kernel)
  refine ⟨s, reached, fun kept => ?_⟩
  have active := kept.listed.active 0 0
  rw [inactive, fifos, if_pos rfl, some] at active
  cases active

section Marked

variable {s s' : Sys n N}

/-- The bit map and the tails tell which queues of each processor hold a thread. -/
structure Marked (s : Sys n N) : Prop where
  active : ∀ c p, s.qactmap c p = (s.head (.disp c p)).isSome
  tail : ∀ c p, (s.tail c p).isSome = (s.head (.disp c p)).isSome

/-- The fields of the dispatch queues. -/
def dispatchQueues (s : Sys n N) := (fun c p => s.head (.disp c p), s.tail, s.qactmap)

def Aside (s s' : Sys n N) : Prop := dispatchQueues s' = dispatchQueues s

theorem Marked.aside (marked : Marked s) (aside : Aside s s') : Marked s' := by
  obtain ⟨head, both⟩ := Prod.mk.inj aside
  obtain ⟨tail, map⟩ := Prod.mk.inj both
  constructor
  · exact fun c p => by rw [map, congrFun₂ head, marked.active]
  · exact fun c p => by rw [tail, congrFun₂ head, marked.tail]

theorem Marked.pushAt (marked : Marked s) (c : Fin n) (p : Fin 64) (t : Fin N) : Marked (dispqPushAt s c p t) := by
  have first : (Links.redirect (update s.next t none) (s.head (.disp c p)) (s.tail c p) (some t)).2.isSome = true := by
    have same := marked.tail c p
    cases last : s.tail c p with
    | none => rfl
    | some => exact same.symm.trans (by rw [last]; rfl)
  constructor
  all_goals
    intro c' p'
    by_cases here : c' = c ∧ p' = p
    · obtain ⟨rfl, rfl⟩ := here
      simp [dispqPushAt, first]
    · have other : (Queue.disp c' p' : Queue n N) ≠ .disp c p := by simpa using here
      simp [dispqPushAt, update_of_ne other, update₂_of_ne here, marked.active, marked.tail]

theorem Marked.popLocked {v : Fin n} (marked : Marked s) (popped : dispqPopLocked s v = some (t, s')) : Marked s' := by
  simp only [dispqPopLocked, Option.bind_eq_bind, Option.bind_eq_some_iff] at popped
  obtain ⟨p, _, _, head, rfl, rfl⟩ := popped
  have active := marked.active v p
  have tail := marked.tail v p
  constructor
  all_goals
    intro c' p'
    by_cases here : c' = v ∧ p' = p
    · obtain ⟨rfl, rfl⟩ := here
      cases next : s.next t <;> simp_all [dispqPopAt]
    · have other : (Queue.disp c' p' : Queue n N) ≠ .disp v p := by simpa using here
      simp only [dispqPopAt, update_of_ne other]
      split <;> simp [update₂_of_ne here, marked.active, marked.tail]

theorem aside_commitTo (s : Sys n N) (c : Fin n) (next : Fin N) (requeue : Bool) :
    Aside s (commitTo s c next requeue) := by
  rw [commitTo]
  dsimp only
  split
  · rfl
  · split <;> rfl

theorem aside_giveUp (s : Sys n N) (c : Fin n) (requeue : Bool) : Aside s (giveUp s c requeue) := by
  rw [giveUp]
  split <;> rfl

theorem Marked.enter (marked : Marked s) (c : Fin n) (requeue : Bool) : Marked (enter s c requeue) := by
  have begun : Marked (s.setPhase c (.empty requeue)) := marked.aside rfl
  rw [Sched.enter]
  split
  · exact begun
  next popped => exact ((begun.popLocked popped).aside rfl).aside (aside_commitTo ..)

theorem aside_wakeChain {mark : Kthread N → Kthread N} {wq : WaitQueue N} {w : Nat}
    (made : wakeChain s mark wq w = some s') : Aside s s' := by
  obtain ⟨threads, _, rfl⟩ := Option.map_eq_some_iff.mp made
  rfl

/-- Only a push and a pop under cpu_disp_lock touch the dispatch queues. -/
theorem Marked.step {event : Event n N} (marked : Marked s) (made : step s event = some s') : Marked s' := by
  cases event with
  | create t w =>
    obtain ⟨_, ⟨⟩⟩ := Option.ite_none_left_eq_some.mp made
    exact marked.aside rfl
  | push w c =>
    rw [Sched.step, dispqPush] at made
    split at made
    · cases made
    · cases made
      refine Marked.pushAt ?_ _ _ _
      exact marked.aside rfl
  | setclass | tick =>
    cases made
    exact marked.aside rfl
  | yield c | enter c =>
    obtain ⟨_, ⟨⟩⟩ := Option.ite_none_right_eq_some.mp made
    exact marked.enter ..
  | yieldOn c read victim =>
    obtain ⟨_, made⟩ := Option.ite_none_left_eq_some.mp made
    split at made
    · cases made
      exact marked
    next after popped =>
      have taken : Marked after := by
        rcases Option.or_eq_some_iff.mp popped with own | ⟨_, stolen⟩
        · exact marked.popLocked own
        · obtain ⟨v, _, stolen⟩ := Option.bind_eq_some_iff.mp stolen
          exact marked.popLocked stolen
      split at made <;> cases made
      · exact taken
      · exact (taken.aside (aside_commitTo ..)).aside rfl
  | exit c w =>
    obtain ⟨_, made⟩ := Option.ite_none_right_eq_some.mp made
    refine Marked.aside ?_ (aside_wakeChain made)
    exact marked.aside rfl
  | wakeAll wq w =>
    obtain ⟨_, made⟩ := Option.ite_none_left_eq_some.mp made
    exact marked.aside (aside_wakeChain made)
  | steal c victim =>
    rw [Sched.step, trySteal] at made
    repeat' split at made
    all_goals cases made
    · exact marked.aside (aside_giveUp ..)
    · exact marked.aside (aside_giveUp ..)
    next popped => exact (marked.popLocked popped).aside rfl
  | commit c =>
    rw [Sched.step, commit] at made
    split at made <;> cases made
    exact marked.aside (aside_commitTo ..)
  | drain c =>
    rw [Sched.step, drain] at made
    repeat' split at made
    all_goals cases made
    · exact marked.aside rfl
    · refine Marked.pushAt ?_ _ _ _
      exact marked.aside rfl
  | signal t wq w =>
    rw [Sched.step, kthreadSignal] at made
    repeat' split at made
    · cases made
    · cases made
    · obtain ⟨_, _, rfl⟩ := Option.map_eq_some_iff.mp made
      exact marked.aside rfl
    · cases made
      exact marked
  | sleep | swtch | finish | wakeOne | grab | free =>
    -- no queue of a processor is named
    simp only [Sched.step, kthreadSleepOnLocked, contextSwitch, finish, kthreadWakeOne, grabReap, freeThread] at made
    repeat' split at made
    all_goals cases made <;> exact marked.aside rfl

end Marked

def PopsHighest (s : Sys n N) (c : Fin n) : Prop := ∃ t p, dispqPopLocked s c = some (t, dispqPopAt s c p t) ∧
  s.head (.disp c p) = some t ∧ ∀ q > p, s.head (.disp c q) = none

/-- In every run of the scheduler, a processor with a queued thread takes the first one of its highest FIFO that has
any. -/
theorem pops_highest (s : Sys n N) (reached : Run.Reach step (fun _ _ => True) Booted s) (p : Fin 64)
    (busy : (s.head (.disp c p)).isSome = true) : PopsHighest s c := by
  have marked : Marked s := reached.invariant
    (fun s booted => ⟨fun c p => by rw [booted.map, booted.head]; rfl, fun c p => by rw [booted.tail, booted.head]⟩)
    fun _ _ _ marked _ => marked.step
  have active := marked.active c
  cases found : highest (s.qactmap c) with
  | none => cases busy.symm.trans ((active p).symm.trans (highest_none found p))
  | some p' =>
    obtain ⟨set, above⟩ := highest_spec found
    obtain ⟨t, head⟩ := Option.isSome_iff_exists.mp ((active p').symm.trans set)
    refine ⟨t, p', by simp [dispqPopLocked, found, head], head, fun q higher => ?_⟩
    rw [← Option.not_isSome_iff_eq_none, ← active]
    exact fun set => absurd (above q set) (not_le.mpr higher)

/-- Thread 3 was queued first, at priority 30, and thread 2 at priority 60. -/
theorem pops_highest_two : ∃ s : Sys 2 5, s.head (.disp 0 30) = some 3 ∧ s.head (.disp 0 60) = some 2 ∧
    PopsHighest s 0 := by
  obtain ⟨s, reached, low, high⟩ : ∃ s : Sys 2 5, Run.Reach step (fun _ _ => True) Booted s ∧
      s.head (.disp 0 30) = some 3 ∧ s.head (.disp 0 60) = some 2 :=
    Run.Reach.found [.create 3 0, .setclass 3 .ts, .push 0 0, .create 2 0, .push 0 0] twoCpus_booted (by decide +kernel)
  exact ⟨s, low, high, pops_highest s reached 30 (by rw [low]; rfl)⟩

end Kappara.Sched
