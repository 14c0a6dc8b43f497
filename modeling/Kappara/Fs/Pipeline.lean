import Kappara.Fs.Descriptors

/-! Two commands joined by a pipe (run_pipeline of user/init.c), as it changes descriptor
tables: sys_dup2_impl, kthread_inherit_fds and vfs_drain_fds of uts/os/fs/vfs.c and the
descriptors of sys_pipe_impl of uts/os/io/stream_head.c. Whether an execve succeeds is an
input; it copies the whole table. -/

set_option autoImplicit false

namespace Kappara.Pipeline

open Descriptors (dupSlot dupSlot_some freeSlot freeSlot_iff)
open Function (update update_of_ne update_self)

/-- The files of the table before the command, and the two of the pipe. -/
inductive File where
  | old (f : Nat)
  | reads
  | writes
  deriving DecidableEq

abbrev Fdt := Fin 16 → Option File

def before (fds : Fin 16 → Option Nat) : Fdt := fun k => (fds k).map .old

variable {fds : Fin 16 → Option Nat} {fdt : Fdt} {i j k : Fin 16}

section

variable (fdt : Fdt)

def sysPipe : Option (Fin 16 × Fin 16) × Fdt :=
  match freeSlot fdt with
  | none => (none, fdt)
  | some i =>
    let fdt := update fdt i (some .reads)
    match freeSlot fdt with
    | none => (none, fdt)
    | some j => (some (i, j), update fdt j (some .writes))

def sysDup2 (old new : Fin 16) : Fdt := if fdt old = none then fdt else update fdt new (fdt old)

def sysClose (fd : Fin 16) : Fdt := update fdt fd none

/-- The table an execve copies while one end of the pipe stands in for a standard stream, and the
shell's table once the stream is restored. -/
def stage (pipeEnd std : Fin 16) : Fdt × Fdt :=
  match dupSlot fdt std with
  | some k =>
    let child := sysDup2 (update fdt k (fdt std)) pipeEnd std
    (child, sysClose (sysDup2 child k std) k)
  | none => (sysDup2 fdt pipeEnd std, sysDup2 fdt pipeEnd std)

/-- The shell's table afterwards, and for each execve what it copied, if it succeeded. -/
def runPipeline (left right : Bool) : Fdt × List (Option Fdt) :=
  match sysPipe fdt with
  | (none, fdt) => (fdt, [])
  | (some (i, j), fdt) =>
    let closed (fdt : Fdt) := sysClose (sysClose fdt i) j
    let l := stage fdt j 1
    if left then
      let r := stage l.2 i 0
      (closed r.2, [some l.1, if right then some r.1 else none])
    else (closed l.2, [none])

end

/-- Every slot of an exiting thread is closed. -/
def vfsDrainFds (_ : Fdt) : Fdt := fun _ => none

/-- f_refs of the writing end: the slots of all threads that hold it. -/
def writers (tables : List Fdt) : Nat := (tables.flatMap List.ofFn).countP (· = some .writes)

/-- What a reader takes until a read returns no data, and whether that is the end-of-file, which stream_close reports
with the last descriptor of the writing end. -/
def readAll {A : Type} (writers : Nat) : List A → List A × Bool
  | [] => ([], writers = 0)
  | m :: queue => (m :: (readAll writers queue).1, (readAll writers queue).2)

/-- A third descriptor is free beside those the pipe takes. -/
def Third (fds : Fin 16 → Option Nat) : Prop := ∃ a b c, a < b ∧ b < c ∧ fds a = none ∧ fds b = none ∧ fds c = none

theorem readAll_eq {A : Type} (n : Nat) (queue : List A) : readAll n queue = (queue, decide (n = 0)) := by
  induction queue with
  | nil => rfl
  | cons m queue ih => rw [readAll, ih]

theorem writers_eq_zero {tables : List Fdt} : writers tables = 0 ↔ ∀ fdt ∈ tables, ∀ k, fdt k ≠ some .writes := by
  simp only [writers, List.countP_eq_zero, List.mem_flatMap, List.mem_ofFn, decide_eq_true_eq]
  constructor
  · intro none fdt here k
    exact none _ ⟨fdt, here, k, rfl⟩
  · rintro none _ ⟨fdt, here, k, rfl⟩
    exact none fdt here k

/-- The pipe takes the two lowest free slots. -/
structure Piped (fds : Fin 16 → Option Nat) (i j : Fin 16) (fdt : Fdt) : Prop where
  order : i < j
  first : fds i = none
  second : fds j = none
  below : ∀ k < j, k ≠ i → fds k ≠ none
  table : fdt = update (update (before fds) i (some .reads)) j (some .writes)

theorem sysPipe_some (made : sysPipe (before fds) = (some (i, j), fdt)) : Piped fds i j fdt := by
  unfold sysPipe at made
  split at made
  · cases made
  next first =>
    dsimp only at made
    split at made
    · cases made
    next second =>
      cases made
      rw [freeSlot_iff] at first second
      have low (k : Fin 16) : before fds k = none ↔ fds k = none := by simp [before]
      refine ⟨?_, ?_, ?_, ?_, rfl⟩ <;> grind

theorem before_none : before fds k = none ↔ fds k = none := by simp [before]

section

variable (piped : Piped fds i j fdt)
include piped

theorem Piped.at (k : Fin 16) : fdt k = if k = j then some .writes else if k = i then some .reads
    else before fds k := by
  rw [piped.table, Function.update_apply, Function.update_apply]

theorem Piped.third : Third fds ↔ ∃ k, fdt k = none := by
  constructor
  · rintro ⟨a, b, c, ab, bc, freeA, freeB, freeC⟩
    have first := piped.below a
    have second := piped.below b
    have order := piped.order
    refine ⟨c, ?_⟩
    rw [piped.at, if_neg (by grind), if_neg (by grind), before_none, freeC]
  · rintro ⟨k, free⟩
    have below := piped.below k
    rw [piped.at] at free
    have := @before_none fds k
    exact ⟨i, j, k, piped.order, by grind, piped.first, piped.second, by grind⟩

theorem Piped.used : fdt 0 ≠ none ∧ fdt 1 ≠ none := by
  have order := piped.order
  have zero := piped.below 0
  have one := piped.below 1
  rw [piped.at, piped.at]
  have := @before_none fds 0
  have := @before_none fds 1
  grind

/-- Both standard streams are in use or taken by the pipe. -/
theorem Piped.free_std : (fds 0 = none ↔ 0 = i) ∧ (fds 1 = none ↔ 1 = i ∨ 1 = j) := by
  have order := piped.order
  have zero := piped.below 0
  have one := piped.below 1
  have := piped.first
  have := piped.second
  grind

theorem Piped.closed : sysClose (sysClose fdt i) j = before fds := by
  funext k
  have first := piped.first
  have second := piped.second
  have := @before_none fds k
  unfold sysClose
  rw [Function.update_apply, Function.update_apply, piped.at]
  grind

end

theorem sysDup2_of_ne (other : k ≠ j) : sysDup2 fdt i j k = fdt k := by
  unfold sysDup2
  split
  · rfl
  · exact update_of_ne other _ _

theorem sysDup2_self (used : fdt i ≠ none) : sysDup2 fdt i j j = fdt i := by
  rw [sysDup2, if_neg used, update_self]

theorem stage_restores (saved : dupSlot fdt j = some k) : (stage fdt i j).2 = fdt := by
  obtain ⟨used, empty⟩ := dupSlot_some saved
  have apart : k ≠ j := by
    rintro rfl
    exact used empty
  have copy : sysDup2 (update fdt k (fdt j)) i j k = fdt j := by rw [sysDup2_of_ne apart, update_self]
  unfold stage sysClose
  rw [saved]
  dsimp only
  funext x
  by_cases last : x = k
  · rw [last, update_self, empty]
  · rw [update_of_ne last]
    by_cases std : x = j
    · rw [std, sysDup2_self (by rwa [copy]), copy]
    · rw [sysDup2_of_ne std, sysDup2_of_ne std, update_of_ne last]

theorem dupSlot_free (used : fdt j ≠ none) (free : ∃ k, fdt k = none) : ∃ k, dupSlot fdt j = some k := by
  rw [← Option.ne_none_iff_exists', dupSlot, if_neg (by simpa using used)]
  obtain ⟨k, free⟩ := free
  exact fun none => by simpa [free] using Fin.find?_eq_none_iff.mp none k

/-- Without a free slot the stream is not saved, and not restored. -/
theorem stage_full (full : ∀ k, fdt k ≠ none) : stage fdt i j = (update fdt j (fdt i), update fdt j (fdt i)) := by
  have unsaved : dupSlot fdt j = none := by
    rw [Option.eq_none_iff_forall_ne_some]
    exact fun k saved => full k (dupSlot_some saved).2
  rw [stage, unsaved, sysDup2, if_neg (full i)]

theorem stage_end (used : fdt i ≠ none) : (stage fdt i j).2 i = fdt i := by
  cases saved : dupSlot fdt j with
  | some k => rw [stage_restores saved]
  | none =>
    unfold stage
    rw [saved]
    by_cases same : i = j
    · subst same
      exact sysDup2_self used
    · exact sysDup2_of_ne same

theorem stage_inherited (used : fdt k ≠ none) (other : k ≠ j) : (stage fdt i j).1 k = fdt k := by
  unfold stage
  split
  next new saved =>
    have apart : k ≠ new := by
      rintro rfl
      exact used (dupSlot_some saved).2
    exact (sysDup2_of_ne other).trans (update_of_ne apart _ _)
  · exact sysDup2_of_ne other

/-- The shell's table after the command: restored, or with the writing end where the pipe took its place. -/
theorem Piped.shell (piped : Piped fds i j fdt) (left : Bool) :
    let shell := sysClose (sysClose (if left then (stage (stage fdt j 1).2 i 0).2 else (stage fdt j 1).2) i) j
    let restored := Third fds ∨ fds 1 = none ∧ (left = true → fds 0 = none)
    (shell = before fds ↔ restored) ∧ ((∀ k, shell k ≠ some .writes) ↔ restored) := by
  by_cases third : Third fds
  · obtain ⟨_, saved⟩ := dupSlot_free piped.used.2 (piped.third.mp third)
    obtain ⟨_, again⟩ := dupSlot_free piped.used.1 (piped.third.mp third)
    have same : (if left then (stage (stage fdt j 1).2 i 0).2 else (stage fdt j 1).2) = fdt := by
      rw [stage_restores saved, stage_restores again, ite_self]
    rw [same, piped.closed]
    exact ⟨iff_of_true rfl (.inl third), iff_of_true (by simp [before]) (.inl third)⟩
  · have full : ∀ k, fdt k ≠ none := not_exists.mp (mt piped.third.mpr third)
    have still : ∀ k, update fdt 1 (fdt j) k ≠ none := by
      intro k
      rw [Function.update_apply]
      split
      · exact full j
      · exact full k
    rw [stage_full full, stage_full still]
    simp only [third, false_or, funext_iff, sysClose, Function.update_apply, piped.at]
    obtain ⟨zero, one⟩ := piped.free_std
    have order := piped.order
    have free := @before_none fds
    have old (k : Fin 16) : before fds k ≠ some .writes ∧ before fds k ≠ some .reads := by simp [before]
    refine ⟨⟨fun same => ?_, fun taken k => ?_⟩, ⟨fun none => ?_, fun taken k => ?_⟩⟩
    · have := same 0
      have := same 1
      have := old 0
      have := old 1
      grind
    · have := piped.first
      have := piped.second
      have := piped.at k
      grind
    · have := none 0
      have := none 1
      grind
    · have := old k
      have := piped.at k
      grind

/-- After the exit of the first command, the second reads to the end-of-file exactly if it was not started and the
shell's table is restored: once it runs, it holds the writing end itself. Where an execve fails, the table is restored
exactly if a third descriptor was free, or if the pipe takes the places of the standard streams. -/
theorem pipeline_descriptors_iff (fds : Fin 16 → Option Nat) (left right : Bool) :
    let run := runPipeline (before fds) left right
    (∀ l r, run.2 = [some l, r] → ∀ queue : List (List Byte),
      (readAll (writers (run.1 :: vfsDrainFds l :: r.toList)) queue = (queue, true) ↔
        r = none ∧ (Third fds ∨ fds 1 = none ∧ fds 0 = none))) ∧
    (none ∈ run.2 → (run.1 = before fds ↔ Third fds ∨ fds 1 = none ∧ (left = true → fds 0 = none))) := by
  unfold runPipeline
  split
  next made => simp
  next i j fdt made =>
    have piped := sysPipe_some made
    obtain ⟨restored, unheld⟩ := piped.shell left
    cases left with
    | false => exact ⟨by simp, fun _ => restored⟩
    | true =>
      refine ⟨fun l r both queue => ?_, fun _ => restored⟩
      obtain ⟨rfl, rfl⟩ : _ = l ∧ _ = r := by simpa using both
      rw [readAll_eq, Prod.mk.injEq, eq_self, true_and, decide_eq_true_eq, writers_eq_zero, List.forall_mem_cons,
        List.forall_mem_cons]
      cases right with
      | false => simpa [vfsDrainFds] using unheld
      | true =>
        have writes : fdt j = some .writes := by simp [piped.at]
        have kept := (stage_end (j := 1) (by simp [writes])).trans writes
        have inherited := (stage_inherited (i := i) (by simp [kept]) (Fin.ne_zero_of_lt piped.order)).trans kept
        simp only [if_true, Option.toList_some, List.forall_mem_singleton, reduceCtorEq, false_and, iff_false]
        exact fun none => none.2.2 j inherited

/-- A shell with three open descriptors. -/
theorem reader_holds_writing_end : let fds : Fin 16 → Option Nat := fun k => if k < 3 then some k else none
    ∃ l r, runPipeline (before fds) true true = (before fds, [some l, some r]) ∧ r 4 = some .writes := by
  refine ⟨_, _, Prod.ext (funext ?_) rfl, ?_⟩
  · decide
  · decide

end Kappara.Pipeline
