import Kappara.Fs.Layout

/-! Creation of files and directories where the device or the memory fails
(kfs_alloc_block_zero, kfs_dir_creat and kfs_dir_mkdir of uts/os/fs/kfs.c).

The disk is what the device holds: a write that fails leaves it as it is. What the
read of the directory block gives is an input, since it comes from the buffer cache. -/

set_option autoImplicit false

namespace Kappara.Fs.Failure

/-- How the accesses and allocations of a call come out: the block read, the write of the bitmap, the
writes of zeros, the write of the directory block, the record and the copy of the name. -/
structure Outcome where
  read : Option Block
  saved : Bool
  zeroed : Nat → Bool
  written : Bool
  record : Bool
  name : Bool

inductive Ret where
  | ok | failed | fault
  deriving DecidableEq

variable {n m : Nat}

/-- The loop that zeroes the run, up to the first write that fails. -/
def zeroLoop (o : Outcome) (start : Nat) : Nat → (Nat → Block) → Bool × (Nat → Block)
  | 0, disk => (true, disk)
  | count + 1, disk =>
    let rest := zeroLoop o start count disk
    if rest.1 && o.zeroed count then (true, bdWriteBlock rest.2 (start + count) fun _ => 0) else (false, rest.2)

section

variable (o : Outcome) (fs : Mount n m)

variable (d : Fin n) (block : Nat) (name : Name) (count : Nat)

/-- The run, none where the call returns 0. -/
def kfsAllocBlockZero : Option Nat × Mount n m :=
  match findRun fs.nblocks fs.bitmap count with
  | none => (none, fs)
  | some start =>
    let bitmap := kfsBitSetRun fs.bitmap start true count
    let zero := zeroLoop o start count (if o.saved then kfsBitmapSave fs.disk bitmap else fs.disk)
    (if zero.1 then some start else none, { fs with bitmap, disk := zero.2 })

/-- The part creat and mkdir share: hook is what follows the write of the directory block. -/
def kfsDirEnter (tag : BitVec 32) (hook : Fin 26 → Nat → Mount n m → Ret × Mount n m) : Ret × Mount n m :=
  match o.read with
  | none => (.failed, fs)
  | some table =>
    match kfsDirFindSlot table name with
    | none => (.failed, fs)
    | some slot =>
      let run := kfsAllocBlockZero o fs count
      match run.1 with
      | none => (.failed, run.2)
      | some start =>
        if o.written then
          let fs' := { run.2 with
            disk := bdWriteBlock run.2.disk block (setDirent table slot (newDirent name start tag)) }
          if o.record && o.name then hook slot start fs' else (.failed, fs')
        else (.failed, run.2)

/-- What vfs_mknod_regfile finds does not reach the caller. -/
def kfsDirCreat (made : Made n) : Ret × Mount n m :=
  kfsDirEnter o fs block name 64 0 fun slot start fs' =>
    (.ok, addChild fs' d name (.reg { startBlock := start, sizeBytes := 0, allocBlocks := 64,
                                      dirBlock := block, direntIdx := slot }) made)

/-- The call goes on to use the inode of the dentry it gets from vfs_mkdir. -/
def kfsDirMkdir (made : Made n) : Ret × Mount n m :=
  kfsDirEnter o fs block name 1 dirBit fun _ start fs' =>
    match made with
    | .none | .unnamed => (.failed, fs')
    | .bare => (.fault, fs')
    | .both i => (.ok, addChild fs' d name (.dir start []) (.both i))

/-- The bitmaps in memory and on the device, the entries of the directory block and the children of
the directory are as before. -/
structure NoTrace (fs fs' : Mount n m) (d : Fin n) (block : Nat) : Prop where
  bitmap : fs'.bitmap = fs.bitmap
  saved : fs'.disk 1 = fs.disk 1
  entries : ∀ i, dirent (fs'.disk block) i = dirent (fs.disk block) i
  children : fs'.inodes d = fs.inodes d

/-- The call gives up before it has marked a run: the block cannot be read, the name is too long or
taken, the table is full, or there is no run. -/
def GivesUpFirst : Prop :=
  (∀ table, o.read = some table → kfsDirFindSlot table name = none) ∨ findRun fs.nblocks fs.bitmap count = none

end

section Enter

variable {o : Outcome} {fs : Mount n m} {block count : Nat} {name : Name} {tag : BitVec 32}
  {hook : Fin 26 → Nat → Mount n m → Ret × Mount n m}

theorem kfsDirEnter_first (first : GivesUpFirst o fs name count) :
    kfsDirEnter o fs block name count tag hook = (.failed, fs) := by
  unfold kfsDirEnter
  split
  · rfl
  next table read =>
    rcases first with slot | run
    · rw [slot table read]
    · rw [kfsAllocBlockZero, run]
      split <;> rfl

variable (some : 0 < count) (hooked : ∀ slot start fs', (hook slot start fs').2.bitmap = fs'.bitmap)
include some hooked

/-- Past that point the bitmap in memory has changed, whatever happens then. -/
theorem kfsDirEnter_marks (later : ¬GivesUpFirst o fs name count) :
    (kfsDirEnter o fs block name count tag hook).2.bitmap ≠ fs.bitmap := by
  simp only [GivesUpFirst, not_or, not_forall] at later
  obtain ⟨⟨table, read, slot⟩, run⟩ := later
  obtain ⟨start, run⟩ := Option.ne_none_iff_exists'.mp run
  obtain ⟨slot, found⟩ := Option.ne_none_iff_exists'.mp slot
  have free := (findRun_free run).2.2 start le_rfl (by omega)
  have marked : (kfsAllocBlockZero o fs count).2.bitmap start = true := by
    rw [kfsAllocBlockZero, run]
    simp [kfsBitSetRun_apply, some]
  have same : (kfsDirEnter o fs block name count tag hook).2.bitmap = (kfsAllocBlockZero o fs count).2.bitmap := by
    simp only [kfsDirEnter, read, found]
    split
    · rfl
    · split
      · split
        · exact hooked _ _ _
        · rfl
      · rfl
  intro kept
  rw [← same, kept, free] at marked
  cases marked

theorem kfsDirEnter_noTrace_iff (d : Fin n) :
    NoTrace fs (kfsDirEnter o fs block name count tag hook).2 d block ↔ GivesUpFirst o fs name count := by
  constructor
  · intro trace
    by_contra later
    exact kfsDirEnter_marks some hooked later trace.bitmap
  · intro first
    rw [kfsDirEnter_first first]
    exact ⟨rfl, rfl, fun _ => rfl, rfl⟩

end Enter

/-- A creat or mkdir that returns -1 leaves no trace exactly where it gave up before it marked a run. -/
theorem failed_create_no_trace_iff (o : Outcome) (fs : Mount n m) (d : Fin n) (block : Nat) (name : Name)
    (made : Made n) :
    ((kfsDirCreat o fs d block name made).1 = .failed →
      (NoTrace fs (kfsDirCreat o fs d block name made).2 d block ↔ GivesUpFirst o fs name 64)) ∧
    ((kfsDirMkdir o fs d block name made).1 = .failed →
      (NoTrace fs (kfsDirMkdir o fs d block name made).2 d block ↔ GivesUpFirst o fs name 1)) := by
  refine ⟨fun _ => kfsDirEnter_noTrace_iff (by decide) (fun _ _ _ => (addChild_rest ..).1) d, fun _ =>
    kfsDirEnter_noTrace_iff (by decide) (fun _ _ _ => ?_) d⟩
  cases made with
  | none | unnamed | bare => rfl
  | both i => exact (addChild_rest ..).1

/-- An empty file system, everything readable and writable, and no memory for the record of the file. -/
def emptyFs : Mount 1 0 := kfsMkimage 100 0

def noRecord : Outcome := ⟨some (emptyFs.disk 2), true, fun _ => true, true, false, true⟩

/-- The call fails with the entry on the disk and 64 blocks marked. -/
theorem failed_creat_leaves_entry :
    (kfsDirCreat noRecord emptyFs 0 2 ⟨[97#8], by decide⟩ .none).1 = .failed ∧
    (dirent ((kfsDirCreat noRecord emptyFs 0 2 ⟨[97#8], by decide⟩ .none).2.disk 2) 0).used = true ∧
    (kfsDirCreat noRecord emptyFs 0 2 ⟨[97#8], by decide⟩ .none).2.bitmap 66 = true ∧ emptyFs.bitmap 66 = false := by
  decide +kernel

end Kappara.Fs.Failure
