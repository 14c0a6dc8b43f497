import Kappara.Io.Lists

/-! Threads that share the buffer cache, and the locks they hold while they sleep
(uts/os/io/buf.c with kthread_sleep_on_locked and kthread_wake_all of
uts/os/proc/sched.c).

A thread executes a list of instructions: it takes buf_lock, runs one critical
section, and goes on without the lock. kthread_sleep_on_locked expects its caller
to hold the lock of the wait queue and releases that one, whereas getblk and
biowait call it with buf_lock. The release is done for the sleeper by the thread
that runs next; here it is part of going to sleep. -/

set_option autoImplicit false

namespace Kappara.Io

open Links
open Function (forall_update_iff update update_cases update_of_ne update_self)

variable {n : Nat}

/-- The code between taking and releasing buf_lock. The flag tells whether bread asked for the buffer. -/
inductive Section (n : Nat) where
  | getblk (key : Key) (reading : Bool)
  | reuse (i : Fin n) (key : Key) (reading : Bool)
  | biowait (i : Fin n)
  | brelse (i : Fin n)
  | biodone (i : Fin n)
  deriving DecidableEq

inductive Instr (n : Nat) where
  | lock (k : Section n)
  | inside (k : Section n)
  | asleep (k : Section n) (i : Fin n)
  | wakeAll (i : Fin n)
  | waking (i : Fin n)
  | bwrite (i : Fin n)
  | strategy (i : Fin n)
  | dStrategy (i : Fin n)
  | bwriteEnd (i : Fin n)
  | breadCheck (i : Fin n)
  | breadEnd (i : Fin n)
  deriving DecidableEq

/-- How a section ends: buf_lock is released and the thread goes on, or it sleeps on a buffer. -/
inductive Exit (n : Nat) where
  | leaves (c : Cache n) (next : List (Instr n))
  | sleeps (i : Fin n)

def afterGetblk (i : Fin n) (reading : Bool) : List (Instr n) := if reading then [.breadCheck i] else []

/-- The rest of getblk when a victim has been found and, if it was dirty, written back. -/
def reuseVictim (c : Cache n) (i : Fin n) (key : Key) (reading : Bool) : Option (Exit n) :=
  match if (c.bufs i).dev = noDev then some c else hashRemove c i with
  | none => none
  | some c => some (.leaves (hashInsert (c.assign i key) i) (afterGetblk i reading))

/-- none where a loop along a hash chain has no end. -/
def runSection (c : Cache n) : Section n → Option (Exit n)
  | .getblk key reading =>
    match hashLookup c key with
    | none => none
    | some (some i) =>
      if (c.bufs i).flags.busy then some (.sleeps i)
      else some (.leaves ({ c with lru := c.lru.unlink i }.mark i fun f => { f with busy := true })
        (afterGetblk i reading))
    | some none =>
      match c.lru.head with
      | none => some (.leaves c [])
      | some i =>
        if (c.bufs i).flags.delwri then
          some (.leaves { c with lru := c.lru.unlink i } [.bwrite i, .lock (.reuse i key reading)])
        else reuseVictim { c with lru := c.lru.unlink i } i key reading
  | .reuse i key reading => reuseVictim c i key reading
  | .biowait i => if (c.bufs i).flags.done then some (.leaves c []) else some (.sleeps i)
  | .brelse i => some (.leaves (brelse c i) [.wakeAll i])
  | .biodone i => some (.leaves (biodone c i) [.wakeAll i])

/-- The code without a lock: bwrite, strategy_and_wait and bread between their sections. -/
def runPlain (drivers : BitVec 8 → Bool) (ok : Bool) (c : Cache n) : Instr n → Option (Cache n × List (Instr n))
  | .bwrite i => some (c.mark i fun f => { f with write := true }, [.strategy i, .bwriteEnd i])
  | .strategy i =>
    if bdevLookup drivers (major (c.bufs i).dev) then
      some (c.mark i fun f => { f with done := false, error := false }, [.dStrategy i, .lock (.biowait i)])
    else some (c.mark i fun f => { f with error := true, done := true }, [])
  | .dStrategy i => some (if ok then c.transfer i else c.mark i fun f => { f with error := true }, [.lock (.biodone i)])
  | .bwriteEnd i =>
    if (c.bufs i).flags.error then some (c.mark i fun f => { f with write := false }, [.lock (.brelse i)])
    else some (c.mark i fun f => { f with write := false, valid := true, delwri := false }, [.lock (.brelse i)])
  | .breadCheck i =>
    if (c.bufs i).flags.valid then some (c, [])
    else some (c.mark i fun f => { f with read := true }, [.strategy i, .breadEnd i])
  | .breadEnd i =>
    if (c.bufs i).flags.error then some (c, [.lock (.brelse i)])
    else some (c.mark i fun f => { f with valid := true, read := false }, [])
  | _ => none

/-- The machine: what the locks and the wait queues of the buffers hold, the instructions each thread has
left, and for each lock released by going to sleep the sleeper, the queue and who had its lock. -/
structure Machine (n : Nat) where
  cache : Cache n
  bufLock : Option Nat
  sqLock : Fin n → Option Nat
  queue : Fin n → List Nat
  prog : Nat → List (Instr n)
  freed : List (Nat × Fin n × Option Nat)

section

variable (drivers : BitVec 8 → Bool) (c : Cache n) (i : Fin n) (m : Machine n) (t : Nat)

def Machine.set (prog : List (Instr n)) : Machine n :=
  { m with prog := update m.prog t prog }

def Machine.sleep (k : Section n) (i : Fin n) (rest : List (Instr n)) : Machine n :=
  { m.set t (.asleep k i :: rest) with
    queue := update m.queue i (t :: m.queue i)
    sqLock := update m.sqLock i none
    freed := (t, i, m.sqLock i) :: m.freed }

-- The loops of getblk and biowait start again with taking the lock.
def awaken : List (Instr n) → List (Instr n)
  | .asleep k _ :: rest => .lock k :: rest
  | prog => prog

inductive Call (n : Nat) where
  | getblk (key : Key)
  | bread (key : Key)
  | biowait (i : Fin n)
  | brelse (i : Fin n)
  | biodone (i : Fin n)
  deriving DecidableEq

def Call.first : Call n → Section n
  | .getblk key => .getblk key false
  | .bread key => .getblk key true
  | .biowait i => .biowait i
  | .brelse i => .brelse i
  | .biodone i => .biodone i

/-- A thread makes a call, or executes its next instruction with the given outcome of the device. -/
inductive Act (n : Nat) where
  | call (t : Nat) (call : Call n)
  | run (t : Nat) (ok : Bool)
  deriving DecidableEq

def runThread (ok : Bool) : Option (Machine n) :=
  match m.prog t with
  | [] => none
  | .lock k :: rest =>
    if m.bufLock = none then some { m.set t (.inside k :: rest) with bufLock := some t } else none
  | .inside k :: rest =>
    match runSection m.cache k with
    | none => none
    | some (.leaves c next) => some { m.set t (next ++ rest) with cache := c, bufLock := none }
    | some (.sleeps i) => some (m.sleep t k i rest)
  | .asleep _ _ :: _ => none
  | .wakeAll i :: rest =>
    if m.sqLock i = none then some { m.set t (.waking i :: rest) with sqLock := update m.sqLock i (some t) } else none
  | .waking i :: rest =>
    some { m with
      sqLock := update m.sqLock i none
      queue := update m.queue i []
      prog := update (fun u => if u ∈ m.queue i then awaken (m.prog u) else m.prog u) t rest }
  | instr :: rest =>
    match runPlain drivers ok m.cache instr with
    | none => none
    | some (c, next) => some { m.set t (next ++ rest) with cache := c }

def act : Act n → Option (Machine n)
  | .call t call => if m.prog t = [] then some (m.set t [.lock call.first]) else none
  | .run t ok => runThread drivers m t ok

def Booted : Prop :=
  ∃ slab disk, m = ⟨bufInit slab disk, none, fun _ => none, fun _ => [], fun _ => [], []⟩

-- The buffer is on the chain of its bucket.
def onChain : Bool :=
  search c.hashNext (fun j => j == i) (n + 1) (c.buckets (bufHashIdx (c.bufs i).key)) == some (some i)

-- evict_one takes the buffer out of its chain, if it is on one.
def removable : Bool := !((c.bufs i).dev == noDev && onChain c i)

/-- The section finds no reason to sleep: getblk finds its block free and biowait its transfer done. -/
def staysAwake : Section n → Bool
  | .getblk key _ =>
    match hashLookup c key, c.lru.head with
    | some (some i), _ => !(c.bufs i).flags.busy
    | some none, some i => (c.bufs i).flags.delwri || removable c i
    | _, _ => true
  | .reuse i _ _ => removable c i
  | .biowait i => (c.bufs i).flags.done
  | _ => true

def awakeAct : Act n → Bool
  | .call _ _ => true
  | .run t _ =>
    match m.prog t with
    | .inside k :: _ => staysAwake m.cache k
    | _ => true

/-- No sleeper has buf_lock, every lock released by going to sleep was the sleeper's, and who wants
buf_lock finds it free after at most one more step of its owner. -/
structure SleepsUnlocked : Prop where
  unowned : ∀ t k i rest, m.prog t = .asleep k i :: rest → m.bufLock ≠ some t
  acquired : ∀ t i owner, (t, i, owner) ∈ m.freed → owner = some t
  available : ∀ t k rest ok, m.prog t = .lock k :: rest →
    m.bufLock = none ∨ ∃ u, u ≠ t ∧ m.bufLock = some u ∧ (awakeAct m (.run u ok) = true →
      ∃ m', act drivers m (.run u ok) = some m' ∧ m'.bufLock = none ∧ m'.prog t = .lock k :: rest)

end

variable {l prog : List (Instr n)} {x : Instr n} {a : Act n}

section Pending

variable {drivers : BitVec 8 → Bool} {ok : Bool} {k : Section n} {c c' : Cache n} {next : List (Instr n)}

-- Instructions that may stand behind the one a thread executes.
def Instr.pending : Instr n → Bool
  | .inside _ => false
  | .asleep _ _ => false
  | _ => true

theorem afterGetblk_pending (i : Fin n) (reading : Bool) : ∀ x ∈ afterGetblk i reading, x.pending = true := by
  cases reading <;> simp [afterGetblk, Instr.pending]

theorem runSection_pending (left : runSection c k = some (.leaves c' next)) : ∀ x ∈ next, x.pending = true := by
  have reused {c : Cache n} {i : Fin n} {key : Key} {reading : Bool}
      (left : reuseVictim c i key reading = some (.leaves c' next)) : ∀ x ∈ next, x.pending = true := by
    unfold reuseVictim at left
    split at left <;> cases left
    exact afterGetblk_pending i reading
  unfold runSection at left
  split at left
  · split at left
    · cases left
    · split at left <;> cases left
      exact afterGetblk_pending _ _
    · split at left
      · cases left
        exact nofun
      · split at left
        · cases left
          simp [Instr.pending]
        · exact reused left
  · exact reused left
  · split at left <;> cases left
    exact nofun
  · cases left
    simp [Instr.pending]
  · cases left
    simp [Instr.pending]

theorem runPlain_pending {instr : Instr n}
    (ran : runPlain drivers ok c instr = some (c', next)) : ∀ x ∈ next, x.pending = true := by
  unfold runPlain at ran
  split at ran
  any_goals split at ran
  all_goals cases ran
  all_goals simp [Instr.pending]

theorem append_pending {l' : List (Instr n)} (first : ∀ x ∈ l, x.pending = true) (second : ∀ x ∈ l', x.pending = true) :
    ∀ x ∈ l ++ l', x.pending = true := by
  intro x member
  rcases List.mem_append.mp member with inFirst | inSecond
  · exact first x inFirst
  · exact second x inSecond

end Pending

section Owned

variable {drivers : BitVec 8 → Bool} {m m' : Machine n} {t : Nat} {k : Section n} {rest new : List (Instr n)}

-- In any run, a thread inside a section has buf_lock.
structure Owned (m : Machine n) : Prop where
  pending : ∀ t, ∀ x ∈ (m.prog t).tail, x.pending = true
  inside : ∀ t k rest, m.prog t = .inside k :: rest → m.bufLock = some t

theorem Owned.goOn (owned : Owned m) (prog : m'.prog = update m.prog t new)
    (pending : ∀ x ∈ new.tail, x.pending = true) (inside : ∀ k rest, new = .inside k :: rest → m'.bufLock = some t)
    (others : ∀ u, u ≠ t → m.bufLock = some u → m'.bufLock = some u) : Owned m' where
  pending := by
    rw [prog]
    exact (forall_update_iff m.prog fun _ p => ∀ x ∈ p.tail, x.pending = true).mpr ⟨pending, fun u _ => owned.pending u⟩
  inside u k rest here := by
    rw [prog] at here
    rcases update_cases here with ⟨rfl, new⟩ | ⟨same, here⟩
    · exact inside k rest new
    · exact others u same (owned.inside u k rest here)

theorem awaken_tail (prog : List (Instr n)) : (awaken prog).tail = prog.tail := by
  unfold awaken
  split <;> rfl

theorem awaken_inside (inside : awaken prog = .inside k :: rest) : prog = .inside k :: rest := by
  unfold awaken at inside
  split at inside
  · cases inside
  · exact inside

theorem Owned.woken (owned : Owned m) (woken : Nat → Prop) [DecidablePred woken] :
    Owned { m with prog := fun u => if woken u then awaken (m.prog u) else m.prog u } where
  pending u := by
    dsimp only
    split
    · rw [awaken_tail]
      exact owned.pending u
    · exact owned.pending u
  inside u k rest here := by
    dsimp only at here
    split at here
    · exact owned.inside u k rest (awaken_inside here)
    · exact owned.inside u k rest here

section

variable (pending : ∀ x ∈ l, x.pending = true)
include pending

theorem tail_pending : ∀ x ∈ l.tail, x.pending = true :=
  fun x member => pending x (List.mem_of_mem_tail member)

theorem no_inside {P : Prop} : ∀ k rest, l = .inside k :: rest → P := by
  rintro k rest rfl
  exact nomatch pending (.inside k) List.mem_cons_self

theorem no_asleep : ∀ k i rest, l ≠ .asleep k i :: rest := by
  rintro k i rest rfl
  exact nomatch pending (.asleep k i) List.mem_cons_self

end

theorem Owned.rest_pending (owned : Owned m) (prog : m.prog t = x :: rest) : ∀ y ∈ rest, y.pending = true := by
  have pending := owned.pending t
  rwa [prog] at pending

theorem Owned.act (owned : Owned m) (made : act drivers m a = some m') : Owned m' := by
  cases a with
  | call t call =>
    rw [Io.act] at made
    split at made <;> cases made
    exact owned.goOn rfl nofun nofun fun _ _ lock => lock
  | run t ok =>
    rw [Io.act, runThread] at made
    split at made
    · cases made
    next prog =>
      obtain ⟨free, ⟨⟩⟩ := Option.ite_none_right_eq_some.mp made
      refine owned.goOn rfl (owned.rest_pending prog) (fun _ _ _ => rfl) fun u _ lock => ?_
      rw [free] at lock
      cases lock
    next prog =>
      split at made
      · cases made
      next left =>
        cases made
        have all := append_pending (runSection_pending left) (owned.rest_pending prog)
        refine owned.goOn rfl (tail_pending all) (no_inside all) fun u other lock => ?_
        exact absurd (Option.some.inj (lock.symm.trans (owned.inside t _ _ prog))) other
      · cases made
        exact owned.goOn rfl (owned.rest_pending prog) nofun fun _ _ lock => lock
    · cases made
    next prog =>
      split at made <;> cases made
      exact owned.goOn rfl (owned.rest_pending prog) nofun fun _ _ lock => lock
    next i rest prog =>
      cases made
      have all := owned.rest_pending prog
      exact (owned.woken (· ∈ m.queue i)).goOn rfl (tail_pending all) (no_inside all) fun _ _ lock => lock
    next prog =>
      split at made
      · cases made
      next plain =>
        cases made
        have all := append_pending (runPlain_pending plain) (owned.rest_pending prog)
        exact owned.goOn rfl (tail_pending all) (no_inside all) fun _ _ lock => lock

end Owned

section Awake

variable {drivers : BitVec 8 → Bool} {ok : Bool} {m m' : Machine n} {c : Cache n} {t : Nat} {k : Section n} {i : Fin n}
  {next rest : List (Instr n)} {chains : BitVec 4 → List (Fin n)}

section

variable (hashed : Hashed c chains)
include hashed

theorem Hashed.onChain {h : BitVec 4} (member : i ∈ chains h) : onChain c i = true := by
  have here := hashed.home h i member
  have path := hashed.chained.path h
  have enough : (chains h).length < n + 1 := by have := hashed.length_le h; omega
  rw [Io.onChain, here, path.search enough, beq_iff_eq, Option.some.injEq]
  cases found : (chains h).find? fun j => j == i with
  | none => simpa using List.find?_eq_none.mp found i member
  | some j =>
    have same : j = i := by simpa using List.find?_some found
    rw [same]

theorem Hashed.removable (fits : removable c i = true) : (c.bufs i).dev = noDev → ∀ h, i ∉ chains h := by
  intro free h member
  rw [Io.removable, hashed.onChain member, free] at fits
  simp at fits

theorem reuseVictim_leaves (fits : removable c i = true) (key : Key) (reading : Bool) :
    ∃ c' chains', reuseVictim c i key reading = some (.leaves c' (afterGetblk i reading)) ∧ Hashed c' chains' := by
  have exists_ : ∃ c₂, (if (c.bufs i).dev = noDev then some c else hashRemove c i) = some c₂ := by
    split
    · exact ⟨c, rfl⟩
    next used =>
      obtain ⟨c', _, removed, _⟩ := hashed.hashRemove used
      exact ⟨c', removed⟩
  obtain ⟨c₂, removed⟩ := exists_
  obtain ⟨-, chains', hashed', -⟩ := hashed.evicted key (hashed.removable fits) (.refl c) removed
  exact ⟨_, chains', by rw [reuseVictim, removed], hashed'⟩

theorem runSection_leaves (awake : staysAwake c k = true) :
    ∃ c' next chains', runSection c k = some (.leaves c' next) ∧ Hashed c' chains' := by
  cases k with
  | getblk key reading =>
    rw [runSection]
    rw [staysAwake] at awake
    cases found : hashLookup c key with
    | none =>
      rw [hashed.lookup] at found
      cases found
    | some hit =>
      rw [found] at awake
      cases hit with
      | some i =>
        have free : ¬ (c.bufs i).flags.busy = true := by simpa using awake
        dsimp only
        rw [if_neg free]
        exact ⟨_, _, chains, rfl, hashed.same ((unlink_table c i).trans (mark_table _ i _))⟩
      | none =>
        cases head : c.lru.head with
        | none => exact ⟨c, [], chains, rfl, hashed⟩
        | some i =>
          rw [head] at awake
          dsimp only at awake ⊢
          rw [Bool.or_eq_true] at awake
          split
          · exact ⟨_, _, chains, rfl, hashed.same (unlink_table c i)⟩
          next clean =>
            obtain ⟨c', chains', result, hashed'⟩ :=
              reuseVictim_leaves (hashed.same (unlink_table c i)) (awake.resolve_left clean) key reading
            exact ⟨c', _, chains', result, hashed'⟩
  | reuse i key reading =>
    obtain ⟨c', chains', result, hashed'⟩ := reuseVictim_leaves hashed awake key reading
    exact ⟨c', _, chains', result, hashed'⟩
  | biowait i =>
    rw [staysAwake] at awake
    rw [runSection, if_pos awake]
    exact ⟨c, [], chains, rfl, hashed⟩
  | brelse i => exact ⟨_, _, chains, rfl, hashed.same (brelse_table c i)⟩
  | biodone i => exact ⟨_, _, chains, rfl, hashed.same (mark_table c i _)⟩

theorem runPlain_hashed {instr : Instr n} {c' : Cache n}
    (ran : runPlain drivers ok c instr = some (c', next)) : Hashed c' chains := by
  have marked {i : Fin n} {f : Flags → Flags} : Hashed (c.mark i f) chains := hashed.same (mark_table c i f)
  have moved {i : Fin n} : Hashed (c.transfer i) chains := hashed.same (after_table c true i)
  cases instr with
  | dStrategy i =>
    cases ran
    split
    · exact moved
    · exact marked
  | bwrite i =>
    cases ran
    exact marked
  | strategy i | bwriteEnd i =>
    rw [runPlain] at ran
    split at ran <;> cases ran <;> exact marked
  | breadCheck i | breadEnd i =>
    rw [runPlain] at ran
    split at ran <;> cases ran
    · exact hashed
    · exact marked
  | lock | inside | asleep | wakeAll | waking => cases ran

end

-- The invariant of runs without sleep: buf_lock belongs to the thread inside a section.
structure Awake (m : Machine n) : Prop where
  hashed : ∃ chains, Hashed m.cache chains
  owner : ∀ t, m.bufLock = some t ↔ ∃ k rest, m.prog t = .inside k :: rest
  pending : ∀ t, ∀ x ∈ (m.prog t).tail, x.pending = true
  awake : ∀ t k i rest, m.prog t ≠ .asleep k i :: rest
  freed : m.freed = []

section

variable (awake : Awake m)
include awake

theorem Awake.owned : Owned m :=
  ⟨awake.pending, fun t k rest inside => (awake.owner t).mpr ⟨k, rest, inside⟩⟩

theorem Awake.goOn {new : List (Instr n)} (owned : Owned m') (hashed : ∃ chains, Hashed m'.cache chains)
    (prog : m'.prog = update m.prog t new) (up : ∀ k i rest, new ≠ .asleep k i :: rest)
    (others : ∀ u, u ≠ t → m'.bufLock = some u → m.bufLock = some u)
    (mine : m'.bufLock = some t → ∃ k rest, new = .inside k :: rest) (freed : m'.freed = []) : Awake m' := by
  refine ⟨hashed, fun u => ⟨fun holds => ?_, fun inside => ?_⟩, owned.pending, ?_, freed⟩
  · by_cases same : u = t
    · subst same
      rw [prog, update_self]
      exact mine holds
    · rw [prog, update_of_ne same]
      exact (awake.owner u).mp (others u same holds)
  · obtain ⟨k, rest, here⟩ := inside
    exact owned.inside u k rest here
  · rw [prog]
    exact (forall_update_iff m.prog fun _ p => ∀ k i rest, p ≠ .asleep k i :: rest).mpr ⟨up, fun u _ => awake.awake u⟩

theorem Awake.unowned {P : Prop} (prog : m.prog t = x :: rest) (outside : ∀ k, x ≠ .inside k)
    (mine : m.bufLock = some t) : P := by
  obtain ⟨k, tail, same⟩ := (awake.owner t).mp mine
  rw [prog] at same
  cases same
  exact absurd rfl (outside k)

theorem Awake.run (stays : awakeAct m (.run t ok) = true) (made : Io.act drivers m (.run t ok) = some m') :
    Awake m' := by
  obtain ⟨chains, hashed⟩ := awake.hashed
  have owned := awake.owned.act made
  rw [Io.act, runThread] at made
  split at made
  · cases made
  next k rest prog =>
    obtain ⟨free, ⟨⟩⟩ := Option.ite_none_right_eq_some.mp made
    refine awake.goOn owned ⟨chains, hashed⟩ rfl nofun (fun u other mine => ?_) (fun _ => ⟨k, rest, rfl⟩) awake.freed
    exact absurd (Option.some.inj mine).symm other
  next k rest prog =>
    have awakeHere : staysAwake m.cache k = true := by
      rw [awakeAct, prog] at stays
      exact stays
    obtain ⟨c', next, chains', result, hashed'⟩ := runSection_leaves hashed awakeHere
    rw [result] at made
    cases made
    have pending := append_pending (runSection_pending result) (awake.owned.rest_pending prog)
    exact awake.goOn owned ⟨chains', hashed'⟩ rfl (no_asleep pending) nofun nofun awake.freed
  · cases made
  next i rest prog =>
    split at made
    · cases made
      exact awake.goOn owned ⟨chains, hashed⟩ rfl nofun (fun _ _ => id) (awake.unowned prog nofun) awake.freed
    · cases made
  next i rest prog =>
    cases made
    have still : (fun u => if u ∈ m.queue i then awaken (m.prog u) else m.prog u) = m.prog := by
      funext u
      have same : awaken (m.prog u) = m.prog u := by
        unfold awaken
        split
        next k j tail asleep => exact absurd asleep (awake.awake u k j tail)
        · rfl
      rw [same, ite_self]
    exact awake.goOn owned ⟨chains, hashed⟩ (congrArg (update · t rest) still)
      (no_asleep (awake.owned.rest_pending prog)) (fun _ _ => id) (awake.unowned prog nofun) awake.freed
  next instr rest _ outside _ _ _ prog =>
    split at made
    · cases made
    next c' next plain =>
      cases made
      have pending := append_pending (runPlain_pending plain) (awake.owned.rest_pending prog)
      exact awake.goOn owned ⟨chains, runPlain_hashed hashed plain⟩ rfl (no_asleep pending) (fun _ _ => id)
        (awake.unowned prog outside) awake.freed

theorem Awake.act (stays : awakeAct m a = true) (made : act drivers m a = some m') : Awake m' := by
  cases a with
  | run t ok => exact awake.run stays made
  | call t call =>
    have owned := awake.owned.act made
    obtain ⟨idle, ⟨⟩⟩ := Option.ite_none_right_eq_some.mp made
    refine awake.goOn owned awake.hashed rfl nofun (fun _ _ => id) (fun mine => ?_) awake.freed
    obtain ⟨k, rest, inside⟩ := (awake.owner t).mp mine
    rw [idle] at inside
    cases inside

/-- The owner of buf_lock is inside a section, which ends with the lock released. -/
theorem Awake.available (ok : Bool) (wants : m.prog t = .lock k :: rest) :
    m.bufLock = none ∨ ∃ u, u ≠ t ∧ m.bufLock = some u ∧ (awakeAct m (.run u ok) = true →
      ∃ m', Io.act drivers m (.run u ok) = some m' ∧ m'.bufLock = none ∧ m'.prog t = .lock k :: rest) := by
  cases lock : m.bufLock with
  | none => exact .inl rfl
  | some u =>
    obtain ⟨k', rest', prog⟩ := (awake.owner u).mp lock
    have other : t ≠ u := by
      rintro rfl
      rw [wants] at prog
      cases prog
    refine .inr ⟨u, other.symm, rfl, fun stays => ?_⟩
    rw [awakeAct, prog] at stays
    obtain ⟨chains, hashed⟩ := awake.hashed
    obtain ⟨c', next, -, result, -⟩ := runSection_leaves hashed stays
    refine ⟨{ m.set u (next ++ rest') with cache := c', bufLock := none }, ?_, rfl, ?_⟩
    · rw [Io.act, runThread, prog]
      dsimp only
      rw [result]
    · exact (update_of_ne other _ _).trans wants

end

end Awake

/-- In every run in which no getblk finds its block busy and no biowait its transfer unfinished, no
thread sleeps with buf_lock and the lock can always be taken. -/
theorem sleeps_unlocked_when_awake (n : Nat) (drivers : BitVec 8 → Bool) (m : Machine n)
    (reached : Run.Reach (act drivers) (fun m a => awakeAct m a = true) Booted m) : SleepsUnlocked drivers m := by
  have awake : Awake m := by
    apply reached.invariant
    · rintro m ⟨slab, disk, rfl⟩
      exact ⟨⟨_, (tabled_init slab disk).toHashed⟩, by simp, by simp, by simp, rfl⟩
    · intro m a m' awake stays made
      exact awake.act stays made
  refine ⟨fun t k i rest asleep => absurd asleep (awake.awake t k i rest), fun t i owner member => ?_,
    fun t k rest ok wants => ?_⟩
  · rw [awake.freed] at member
    cases member
  · exact awake.available ok wants

section Deadlock

variable {drivers : BitVec 8 → Bool} {ok : Bool} {m m' : Machine n} {t u : Nat} {k : Section n}
  {rest new : List (Instr n)}

def Waits (prog : List (Instr n)) : Prop := ∃ k rest, prog = .lock k :: rest ∨ ∃ i, prog = .asleep k i :: rest

-- The thread has gone to sleep with buf_lock, or it has been woken and spins on the lock it has.
def Stranded (m : Machine n) (u : Nat) : Prop := m.bufLock = some u ∧ Waits (m.prog u)

theorem owned_of_reach (reached : Run.Reach (act drivers) (fun _ _ => True) Booted m) : Owned m := by
  apply reached.invariant
  · rintro m ⟨slab, disk, rfl⟩
    exact ⟨by simp, by simp⟩
  · intro m a m' owned _ made
    exact owned.act made

theorem waits_awaken (waits : Waits prog) : Waits (awaken prog) := by
  obtain ⟨k, rest, rfl | ⟨i, rfl⟩⟩ := waits
  · exact ⟨k, rest, .inl rfl⟩
  · exact ⟨k, rest, .inl rfl⟩

theorem Stranded.act (stranded : Stranded m u) (owned : Owned m) (made : act drivers m a = some m') :
    Stranded m' u := by
  obtain ⟨lock, waits⟩ := stranded
  -- Another thread moves, and it is not inside a section.
  have apart {t : Nat} {prog : List (Instr n)} (here : m.prog t = prog) (moves : ¬ Waits prog) : u ≠ t := by
    rintro rfl
    exact moves (here ▸ waits)
  have kept {t : Nat} {new : List (Instr n)} (other : u ≠ t) : Waits (update m.prog t new u) := by
    rwa [update_of_ne other]
  cases a with
  | call t call =>
    rw [Io.act] at made
    split at made <;> cases made
    next idle => exact ⟨lock, kept (apart idle (by simp [Waits]))⟩
  | run t ok =>
    rw [Io.act, runThread] at made
    split at made
    · cases made
    next prog =>
      obtain ⟨free, made⟩ := Option.ite_none_right_eq_some.mp made
      rw [free] at lock
      cases lock
    next prog =>
      have same := Option.some.inj (lock.symm.trans (owned.inside t _ _ prog))
      exact absurd same (apart prog (by simp [Waits]))
    · cases made
    next prog =>
      split at made <;> cases made
      exact ⟨lock, kept (apart prog (by simp [Waits]))⟩
    next i rest prog =>
      cases made
      refine ⟨lock, ?_⟩
      dsimp only
      rw [update_of_ne (apart prog (by simp [Waits]))]
      split
      · exact waits_awaken waits
      · exact waits
    next spin _ sleep _ _ prog =>
      split at made
      · cases made
      · cases made
        refine ⟨lock, kept (apart prog ?_)⟩
        rintro ⟨k, rest, same | ⟨i, same⟩⟩
        · cases same
          exact spin k rfl
        · cases same
          exact sleep k i rfl

/-- A thread that has gone to sleep with buf_lock keeps it for ever: every wake-up needs the lock first. -/
theorem sleeper_keeps_lock (reached : Run.Reach (act drivers) (fun _ _ => True) Booted m) {i : Fin n}
    (own : m.bufLock = some u)
    (asleep : m.prog u = .asleep k i :: rest) (later : Run.Reach (act drivers) (fun _ _ => True) (· = m) m') :
    m'.bufLock = some u := by
  have both : Owned m' ∧ Stranded m' u := by
    apply later.invariant
    · rintro _ rfl
      exact ⟨owned_of_reach reached, own, k, rest, .inr ⟨i, asleep⟩⟩
    · rintro m₁ a m₂ ⟨owned, stranded⟩ _ made
      exact ⟨owned.act made, stranded.act owned made⟩
  exact both.2.1

end Deadlock

section Examples

def bootedMachine : Machine 64 := ⟨blankCache.cache, none, fun _ => none, fun _ => [], fun _ => [], []⟩

theorem bootedMachine_booted : Booted bootedMachine := ⟨_, _, rfl⟩

-- Thread 0 gets block 0, thread 1 asks for block 1 and is inside getblk, and thread 0 wants to release its buffer.
def apartActs : List (Act 64) :=
  [.call 0 (.getblk (bram 0)), .run 0 true, .run 0 true, .call 1 (.getblk (bram 1)), .run 1 true, .call 0 (.brelse 0)]

theorem sleeps_unlocked_when_awake_apart : ∃ m : Machine 64,
    Run.Reach (act fun _ => true) (fun m a => awakeAct m a = true) Booted m ∧ m.bufLock = some 1 ∧
    m.prog 0 = [.lock (.brelse 0)] ∧ SleepsUnlocked (fun _ => true) m := by
  obtain ⟨m, reached, ⟨lock, wants⟩, unlocked⟩ :=
    Run.Reach.found_with (P := fun m => m.bufLock = some 1 ∧ m.prog 0 = [.lock (.brelse 0)])
    (sleeps_unlocked_when_awake 64 fun _ => true) apartActs bootedMachine_booted (by decide +kernel)
  exact ⟨m, reached, lock, wants, unlocked⟩

-- Both threads ask for the same block.
def collideActs : List (Act 64) :=
  [.call 0 (.getblk (bram 0)), .run 0 true, .run 0 true, .call 1 (.getblk (bram 0)), .run 1 true, .run 1 true,
   .call 0 (.brelse 0)]

/-- The second thread sleeps with buf_lock, having released a lock nobody had, and the first one can
never release the buffer. -/
theorem colliding_getblk_deadlocks : ∃ m : Machine 64, Run.Reach (act fun _ => true) (fun _ _ => True) Booted m ∧
    m.prog 1 = [.asleep (.getblk (bram 0) false) 0] ∧ m.bufLock = some 1 ∧ (1, 0, none) ∈ m.freed ∧
    m.prog 0 = [.lock (.brelse 0)] ∧ ∀ m', Run.Reach (act fun _ => true) (fun _ _ => True) (· = m) m' →
      m'.bufLock = some 1 := by
  obtain ⟨m, reached, sleeps, lock, freed, wants⟩ :
    ∃ m : Machine 64, Run.Reach (act fun _ => true) (fun _ _ => True) Booted m ∧
      m.prog 1 = [.asleep (.getblk (bram 0) false) 0] ∧ m.bufLock = some 1 ∧ (1, 0, none) ∈ m.freed ∧
        m.prog 0 = [.lock (.brelse 0)] :=
    Run.Reach.found collideActs bootedMachine_booted (by decide +kernel)
  exact ⟨m, reached, sleeps, lock, freed, wants, fun m' later => sleeper_keeps_lock reached lock sleeps later⟩

end Examples

end Kappara.Io
