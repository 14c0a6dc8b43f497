import Kappara.Sched.Place

/-! Moving threads between places.

The lists change by a thread at one end, by one taken out, or by a whole chain that goes
from one list to another. A processor whose threads stay where they are keeps agreeing
with the places, so that a step has to be looked at on its own processor only. -/

set_option autoImplicit false

namespace Kappara.Sched

open Function (update update_apart update_of_ne update_self)

variable {n N : Nat} {s s' : Sys n N} {places places' : Places n N} {lists lists' : Lists n N} {c : Fin n} {t : Fin N}
  {q : Queue n N}

section Lists

variable {pri : Fin 64} {rest l : List (Fin N)}

@[simp] theorem update₂_self {A B C : Type} [DecidableEq A] [DecidableEq B] {f : A → B → C} {a : A} {b : B} {v : C} :
    update₂ f a b v a b = v := by
  simp [update₂]

theorem update₂_of_ne {A B C : Type} [DecidableEq A] [DecidableEq B] {f : A → B → C} {a a' : A} {b b' : B} {v : C}
    (other : ¬(a' = a ∧ b' = b)) : update₂ f a b v a' b' = f a' b' := by
  by_cases same : a' = a
  · subst same
    rw [update₂, update_self, update_of_ne fun equal => other ⟨rfl, equal⟩]
  · rw [update₂, update_of_ne same]

section

variable (listed : Listed s lists)
include listed

theorem Listed.empty (free : s.head q = none) : lists q = [] := by
  have path := listed.chained.path q
  rw [free] at path
  cases l : lists q with
  | nil => rfl
  | cons t rest =>
    rw [l] at path
    cases path.1

theorem Listed.first (head : s.head q = some t) : ∃ rest, lists q = t :: rest ∧ s.next t = rest.head? := by
  have path := listed.chained.path q
  rw [head] at path
  cases l : lists q with
  | nil =>
    rw [l] at path
    cases path
  | cons t' rest =>
    rw [l] at path
    cases path.1
    exact ⟨rest, rfl, path.2.head⟩

/-- The dispatch queues do not notice a change of the other lists. -/
theorem Listed.other {head : Queue n N → Option (Fin N)} {next : Fin N → Option (Fin N)}
    (chained : Links.Chained head next lists') (disp : ∀ c pri, lists' (.disp c pri) = lists (.disp c pri))
    (heads : s'.head = head) (links : s'.next = next) (tail : s'.tail = s.tail) (map : s'.qactmap = s.qactmap) :
    Listed s' lists' := by
  constructor
  · rwa [heads, links]
  · intro c pri
    rw [tail, disp, listed.tail]
  · intro c pri
    rw [map, disp, listed.active]

theorem Listed.push (absent : ∀ q, t ∉ lists q) (c : Fin n) (pri : Fin 64) :
    Listed (dispqPushAt s c pri t) (update lists (.disp c pri) (lists (.disp c pri) ++ [t])) := by
  constructor
  · have appended := listed.chained.append (.disp c pri) absent
    rw [← listed.tail] at appended
    exact appended
  all_goals
    intro c' pri'
    by_cases same : c' = c ∧ pri' = pri
    · obtain ⟨rfl, rfl⟩ := same
      simp [dispqPushAt]
    · have other : (Queue.disp c' pri' : Queue n N) ≠ .disp c pri := by simpa using same
      simp [dispqPushAt, update_of_ne other, update₂_of_ne same, listed.tail, listed.active]

theorem Listed.pop (first : lists (.disp c pri) = t :: rest) :
    Listed (dispqPopAt s c pri t) (update lists (.disp c pri) rest) := by
  have path := listed.chained.path (.disp c pri)
  rw [first] at path
  have next : s.next t = rest.head? := path.2.head
  constructor
  · exact listed.chained.pop first none
  all_goals
    intro c' pri'
    by_cases same : c' = c ∧ pri' = pri
    · obtain ⟨rfl, rfl⟩ := same
      cases rest with
      | nil => simp [dispqPopAt, next]
      | cons t' rest => simp [dispqPopAt, next, listed.tail, listed.active, first]
    · have other : (Queue.disp c' pri' : Queue n N) ≠ .disp c pri := by simpa using same
      simp only [dispqPopAt, update_of_ne other]
      split
      · simp [update₂_of_ne same, listed.tail, listed.active]
      · simp [listed.tail, listed.active]

theorem dispqPopLocked_some (popped : dispqPopLocked s c = some (t, s')) :
    ∃ pri rest, lists (.disp c pri) = t :: rest ∧ s' = dispqPopAt s c pri t := by
  simp only [dispqPopLocked, Option.bind_eq_bind, Option.bind_eq_some_iff] at popped
  obtain ⟨pri, _, t', head, rfl, rfl⟩ := popped
  obtain ⟨rest, first, _⟩ := listed.first head
  exact ⟨pri, rest, first, rfl⟩

end

end Lists

section Member

variable {p : Place n N} {l : List (Fin N)}

/-- Every thread is on the list its place says, and on no other. -/
def Member (places : Places n N) (lists : Lists n N) : Prop := ∀ q t, t ∈ lists q ↔ (places t).queue = some q

section

variable (member : Member places lists)
include member

theorem Member.absent (off : (places t).queue = none) (q : Queue n N) : t ∉ lists q := by
  intro inside
  rw [member q t, off] at inside
  cases inside

theorem Member.change (here : t ∈ l ↔ p.queue = some q) (rest : ∀ x, x ≠ t → (x ∈ l ↔ x ∈ lists q))
    (other : ∀ q', q' ≠ q → ((places t).queue = some q' ↔ p.queue = some q')) :
    Member (update places t p) (update lists q l) := by
  intro q' x
  by_cases same : x = t
  · subst same
    rw [update_self]
    by_cases this : q' = q
    · subst this
      rwa [update_self]
    · rw [update_of_ne this, member, other q' this]
  · rw [update_of_ne same, ← member]
    by_cases this : q' = q
    · subst this
      rw [update_self, rest x same]
    · rw [update_of_ne this]

theorem Member.out (here : (places t).queue = some q) (off : p.queue = none)
    (left : ∀ x, x ∈ l ↔ x ∈ lists q ∧ x ≠ t) : Member (update places t p) (update lists q l) :=
  member.change (by simp [left, off]) (fun x same => by simp [left, same]) fun q' this => by simp [here, off, this.symm]

theorem Member.into (off : (places t).queue = none) (there : p.queue = some q)
    (added : ∀ x, x ∈ l ↔ x ∈ lists q ∨ x = t) : Member (update places t p) (update lists q l) :=
  member.change (by simp [added, there]) (fun x same => by simp [added, same]) fun q' this => by
    simp [there, off, this.symm]

theorem Member.append (off : (places t).queue = none) (q : Queue n N) :
    Member (update places t (.list q)) (update lists q (lists q ++ [t])) :=
  member.into off rfl fun x => by rw [List.mem_append, List.mem_singleton]

theorem Member.stay (same : p.queue = (places t).queue) : Member (update places t p) lists := by
  intro q x
  by_cases here : x = t
  · subst here
    rw [update_self, same, member]
  · rw [update_of_ne here, member]

end

theorem Fits.update {threads : Fin N → Option (Kthread N)} {k : Option (Kthread N)}
    (fits : ∀ t, (places t).Fits (threads t))
    (new : p.Fits k) (t' : Fin N) : (update places t p t').Fits (update threads t k t') := by
  by_cases same : t' = t
  · subst same
    rwa [update_self, update_self]
  · rw [update_of_ne same, update_of_ne same]
    exact fits t'

end Member

section Agree

theorem Agrees.resting (agrees : Agrees s places lists) (inside : t ∈ lists q)
    (free : ∀ l, q.lock = some l → s.held l = false) : places t = .list q ∧ ∀ c, (s.cpu c).phase ≠ .switching t := by
  have locked (c : Fin n) (mine : q.lock = (s.cpu c).release) (some' : (s.cpu c).release.isSome = true) : False := by
    obtain ⟨l, holds⟩ := Option.isSome_iff_exists.mp some'
    have held := (agrees.cpu c).lock l holds
    rw [free l (mine.trans holds)] at held
    cases held
  have here := (agrees.member q t).mp inside
  have place : places t = .list q := by
    cases at' : places t with
    | list q' =>
      rw [at'] at here
      cases here
      rfl
    | leaving c q' =>
      rw [at'] at here
      cases here
      have on : (s.cpu c).thread = t := ((agrees.cpu c).thread t).mp (by rw [at', Place.cpu])
      obtain ⟨_, mine, some'⟩ := (agrees.cpu c).settled.leaving (on ▸ at')
      exact (locked c mine some').elim
    | unused | running | pending | taken | parked =>
      rw [at'] at here
      cases here
  refine ⟨place, fun c phase => ?_⟩
  cases ((agrees.cpu c).switching phase).2.2 with
  | pending there | parked there =>
    rw [place] at there
    cases there
  | list there mine some' =>
    rw [place] at there
    cases there
    exact locked c mine some'

/-- Threads that no processor has a say in move; the processors are as before. -/
theorem Agrees.relocate (agrees : Agrees s places lists) (cpu : s'.cpu = s.cpu) (held : s'.held = s.held)
    (context : s'.context = s.context) (listed : Listed s' lists') (member : Member places' lists')
    (fits : ∀ t, (places' t).Fits (s'.threads t)) (off : ∀ t, places' t = places t ∨
      (places t).owner = none ∧ (places' t).owner = none ∧ ∀ c, (s.cpu c).phase ≠ .switching t) :
    Agrees s' places' lists' := by
  refine ⟨listed, member, fits, fun c => ?_, fun c c' l => ?_⟩
  · rw [cpu, held, context]
    apply (agrees.cpu c).frame
    · intro t mine
      rcases off t with same | ⟨before, after, _⟩
      · exact same
      · rw [before, after] at mine
        rcases mine with mine | mine <;> cases mine
    · intro t phase
      rcases off t with same | ⟨_, _, apart⟩
      · exact same
      · exact absurd phase (apart c)
    · exact (agrees.cpu c).lock
    · exact fun t => Iff.rfl
  · rw [cpu]
    exact agrees.lock c c' l

/-- A place that is no other processor's. -/
def Near (c : Fin n) (p : Place n N) : Prop := p.owner = none ∨ p.owner = some c

theorem Near.eq {c' : Fin n} {p : Place n N} (near : Near c p) (owned : p.owner = some c') : c' = c := by
  rcases near with none | mine
  · cases none.symm.trans owned
  · exact Option.some.inj (owned.symm.trans mine)

/-- One processor takes a step; threads move to and from its places only. -/
theorem Agrees.onCpu {k : Cpu N} (agrees : Agrees s places lists) (cpu : s'.cpu = update s.cpu c k)
    (listed : Listed s' lists') (member : Member places' lists') (fits : ∀ t, (places' t).Fits (s'.threads t))
    (mine : CpuOk places' k c s'.held s'.context) (near : ∀ t, places' t = places t ∨
      Near c (places t) ∧ Near c (places' t) ∧ ∀ c', c' ≠ c → (s.cpu c').phase ≠ .switching t)
    (locks : ∀ c' l, c' ≠ c → (s.cpu c').release = some l → s'.held l = true ∧ k.release ≠ some l)
    (context : ∀ t c', c' ≠ c → (s'.context t = some c' ↔ s.context t = some c')) : Agrees s' places' lists' := by
  refine ⟨listed, member, fits, fun c' => ?_, ?_⟩
  · by_cases same : c' = c
    · subst same
      rwa [cpu, update_self]
    · rw [cpu, update_of_ne same]
      apply (agrees.cpu c').frame
      · intro t owned
        rcases near t with stays | ⟨before, after, _⟩
        · exact stays
        · rcases owned with owned | owned
          · exact absurd (before.eq owned) same
          · exact absurd (after.eq owned) same
      · intro t phase
        rcases near t with stays | ⟨_, _, apart⟩
        · exact stays
        · exact absurd phase (apart c' same)
      · exact fun l holds => (locks c' l same holds).1
      · exact fun t => context t c' same
  · intro c₁ c₂ l first second
    rw [cpu] at first second
    exact update_apart (P := fun k : Cpu N => k.release = some l) (agrees.lock · · l)
      (fun c' other holds => (locks c' l other holds).2) first second

end Agree

end Kappara.Sched
