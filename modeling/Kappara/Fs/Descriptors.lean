import Mathlib.Data.Fintype.Prod
import Kappara.Lib.Refcount
import Kappara.Lib.Run

/-! Descriptor tables, open files and inodes (uts/os/fs/vfs.c).

A slot of a descriptor table points at a struct file, and a dentry or a struct
file points at an inode. The root dentry and its inode are static storage and
stay as they are; the other inodes are allocated. Which dentry a path leads to,
and whether the operations of a file system succeed, is part of a call. -/

set_option autoImplicit false

namespace Kappara.Descriptors

open Refcount (Counted)
open Function (comp_apply comp_update update update_of_ne update_self)

structure Inode where
  count : Nat
  openable : Bool
  deriving DecidableEq

/-- The inode of the root: vfs_init does not set i_count, and there is no open operation. -/
def rootInode : Inode := ⟨0, false⟩

structure File (I : Type) where
  refs : Nat
  inode : I
  deriving DecidableEq

/-- Besides the tables, how often the file at an address was opened and closed, and an inode became
inactive. -/
structure Vfs (T D F I : Type) where
  fdt : T × Fin 16 → Option F
  dentry : D → Option I
  files : Pool F (File I)
  inodes : Pool I Inode
  opened : F → Nat
  closed : F → Nat
  inactive : I → Nat

section Tables

variable {F : Type}

/-- The slot fd_alloc takes of one thread's table. -/
def freeSlot (fdt : Fin 16 → Option F) : Option (Fin 16) := Fin.find? fun k => (fdt k).isNone

/-- The descriptor sys_dup_impl returns. -/
def dupSlot (fdt : Fin 16 → Option F) (oldfd : Fin 16) : Option (Fin 16) :=
  if (fdt oldfd).isNone then none else freeSlot fdt

theorem freeSlot_iff {fdt : Fin 16 → Option F} {k : Fin 16} :
    freeSlot fdt = some k ↔ fdt k = none ∧ ∀ j < k, fdt j ≠ none := by
  simp [freeSlot, Option.isSome_iff_ne_none]

theorem dupSlot_some {fdt : Fin 16 → Option F} {oldfd k : Fin 16} (found : dupSlot fdt oldfd = some k) :
    fdt oldfd ≠ none ∧ fdt k = none := by
  obtain ⟨used, free⟩ := Option.ite_none_left_eq_some.mp found
  exact ⟨by simpa using used, (freeSlot_iff.mp free).1⟩

end Tables

section Calls

variable {T D F I : Type} [DecidableEq T] [DecidableEq D] [DecidableEq F] [DecidableEq I]

variable (s : Vfs T D F I) (t : T) (f : F) (i : I)

def vfsIget : Vfs T D F I :=
  match s.inodes.cells i with
  | none => s
  | some ino => { s with inodes := s.inodes.set i { ino with count := ino.count + 1 } }

def vfsIput : Vfs T D F I :=
  match s.inodes.cells i with
  | none => s
  | some ino =>
    if ino.count = 1 then
      { s with inodes := s.inodes.drop i, inactive := update s.inactive i (s.inactive i + 1) }
    else { s with inodes := s.inodes.set i { ino with count := ino.count - 1 } }

def fileGet : Vfs T D F I :=
  match s.files.cells f with
  | none => s
  | some file => { s with files := s.files.set f { file with refs := file.refs + 1 } }

def release : Vfs T D F I :=
  let s := vfsIput { s with closed := update s.closed f (s.closed f + 1) } i
  { s with files := s.files.drop f }

def filePut : Vfs T D F I :=
  match s.files.cells f with
  | none => s
  | some file =>
    if file.refs = 1 then release s f file.inode
    else { s with files := s.files.set f { file with refs := file.refs - 1 } }

def setSlot (m : T × Fin 16) (f : Option F) : Vfs T D F I :=
  { s with fdt := update s.fdt m f }

def install : Vfs T D F I :=
  match freeSlot fun k => s.fdt (t, k) with
  | some k => setSlot s (t, k) (some f)
  | none => release s f i

/-- sys_open_impl once a dentry was found: a file at address f, if it can be allocated, and the
driver's open. -/
def openInode (f : F) (opens : Bool) : Vfs T D F I :=
  let s := vfsIget s i
  let s := { s with files := s.files.take f ⟨1, i⟩ }
  if opens then install { s with opened := update s.opened f (s.opened f + 1) } t f i
  else
    let s := vfsIput s i
    { s with files := s.files.drop f }

/-- A target of none is the root, which cannot be opened. -/
def sysOpen (target : Option D) (f : Option F) (opens : Bool) : Vfs T D F I :=
  match target.bind s.dentry with
  | none => s
  | some i =>
    match f with
    | none => s
    | some f => if (s.inodes.cells i).any (·.openable) then openInode s t i f opens else s

def sysClose (fd : Fin 16) : Vfs T D F I :=
  match s.fdt (t, fd) with
  | none => s
  | some f => filePut (setSlot s (t, fd) none) f

def sysDup (oldfd : Fin 16) : Vfs T D F I :=
  match s.fdt (t, oldfd), dupSlot (fun k => s.fdt (t, k)) oldfd with
  | some f, some k => fileGet (setSlot s (t, k) (some f)) f
  | _, _ => s

def sysDup2 (oldfd newfd : Fin 16) : Vfs T D F I :=
  match s.fdt (t, oldfd) with
  | none => s
  | some f => if oldfd = newfd then s else fileGet (setSlot (sysClose s t newfd) (t, newfd) (some f)) f

def inheritSlot (parent child : T) (s : Vfs T D F I) (k : Fin 16) : Vfs T D F I :=
  match s.fdt (parent, k) with
  | none => setSlot s (child, k) none
  | some f => fileGet (setSlot s (child, k) (some f)) f

def kthreadInheritFds (parent child : T) : Vfs T D F I :=
  (List.finRange 16).foldl (inheritSlot parent child) s

def vfsDrainFds : Vfs T D F I :=
  (List.finRange 16).foldl (fun s k => sysClose s t k) s

/-- vfs_remove_child on the dentry that has the name. -/
def vfsRemoveChild (d : D) : Vfs T D F I :=
  match s.dentry d with
  | none => s
  | some i => vfsIput { s with dentry := update s.dentry d none } i

/-- sys_unlink_impl and sys_rmdir_impl: the entry found by name, and whether the file system removed it. -/
def sysRemove (child : Option D) (removed : Bool) : Vfs T D F I :=
  match child with
  | none => s
  | some d => if removed then vfsRemoveChild s d else s

inductive Op (T D F : Type) where
  | open_ (t : T) (target : Option D) (f : Option F) (opens : Bool)
  | close (t : T) (fd : Fin 16)
  | dup (t : T) (oldfd : Fin 16)
  | dup2 (t : T) (oldfd newfd : Fin 16)
  | inherit (parent child : T)
  | exit (t : T)
  | unlink (child : Option D) (removed : Bool)
  | rmdir (child : Option D) (removed : Bool)

def step : Op T D F → Option (Vfs T D F I)
  | .open_ t target f opens => some (sysOpen s t target f opens)
  | .close t fd => some (sysClose s t fd)
  | .dup t oldfd => some (sysDup s t oldfd)
  | .dup2 t oldfd newfd => some (sysDup2 s t oldfd newfd)
  | .inherit parent child => some (kthreadInheritFds s parent child)
  | .exit t => some (vfsDrainFds s t)
  | .unlink child removed => some (sysRemove s child removed)
  | .rmdir child removed => some (sysRemove s child removed)

/-- A file is allocated at a free address. -/
def fair : Op T D F → Prop
  | .open_ _ _ (some f) _ => s.files.cells f = none
  | _ => True

/-- A thread that inherits descriptors has none yet. sys_spawn_impl dispatches the thread before it inherits. -/
def inheritsFirst : Op T D F → Prop
  | .inherit _ child => ∀ k, s.fdt (child, k) = none
  | _ => True

end Calls

/-- After vfs_init and the building of the tree: one dentry for each inode, and no descriptor. -/
structure Booted {T D F I : Type} (s : Vfs T D F I) : Prop where
  fdt : s.fdt = fun _ => none
  files : s.files = Pool.empty
  named : ∀ d d' i, s.dentry d = some i → s.dentry d' = some i → d = d'
  counted : ∀ i, (∃ ino, s.inodes.cells i = some ino) ↔ ∃ d, s.dentry d = some i
  first : ∀ i ino, s.inodes.cells i = some ino → ino.count = 1
  settled : s.inodes.Settled
  opened : s.opened = fun _ => 0
  closed : s.closed = fun _ => 0
  inactive : s.inactive = s.inodes.returned

section Counts

variable {T D F I : Type} {s : Vfs T D F I} {m : T × Fin 16} {t : T} {d : D} {f : F} {i : I} {ino : Inode}
  {file : File I}

def refsOf (files : F → Option (File I)) : F → Option Nat := Option.map File.refs ∘ files

def inodeOf (files : F → Option (File I)) : F → Option I := Option.map File.inode ∘ files

def countsOf (inodes : I → Option Inode) : I → Option Nat := Option.map Inode.count ∘ inodes

/-- What names an inode: dentries and open files. -/
def Vfs.names (s : Vfs T D F I) : D ⊕ F → Option I := Sum.elim s.dentry (inodeOf s.files.cells)

/-- The opens and closes as what a pool hands out and takes back. -/
def Vfs.opens (s : Vfs T D F I) : Pool F (File I) := ⟨s.files.cells, s.opened, s.closed⟩

theorem inodeOf_keep [DecidableEq F] (found : s.files.cells f = some file) (refs : Nat) :
    inodeOf (update s.files.cells f (some { file with refs })) = inodeOf s.files.cells := by
  rw [inodeOf, comp_update]
  apply Function.update_eq_self_iff.mpr
  rw [comp_apply, found]
  rfl

/-- What vfs_iput does to an inode with a count: one less, or the end. -/
structure Iput [DecidableEq I] (s s' : Vfs T D F I) (i : I) (ino : Inode) : Prop where
  fdt : s'.fdt = s.fdt
  dentry : s'.dentry = s.dentry
  files : s'.files = s.files
  opened : s'.opened = s.opened
  closed : s'.closed = s.closed
  inodes : s'.inodes.Settled
  inactive : s'.inactive = s'.inodes.returned
  counts : countsOf s'.inodes.cells =
    update (countsOf s.inodes.cells) i (if ino.count = 1 then none else some (ino.count - 1))

theorem vfsIput_spec [DecidableEq I] (found : s.inodes.cells i = some ino) (same : s.inactive = s.inodes.returned)
    (settled : s.inodes.Settled) : Iput s (vfsIput s i) i ino := by
  by_cases last : ino.count = 1
  · have eq : vfsIput s i =
        { s with inodes := s.inodes.drop i, inactive := update s.inactive i (s.inactive i + 1) } := by
      rw [vfsIput, found]
      exact if_pos last
    rw [eq]
    refine ⟨rfl, rfl, rfl, rfl, rfl, settled.drop found, ?_, ?_⟩
    · rw [same]
      rfl
    · rw [if_pos last]
      exact comp_update _ _ _ _
  · have eq : vfsIput s i = { s with inodes := s.inodes.set i { ino with count := ino.count - 1 } } := by
      rw [vfsIput, found]
      exact if_neg last
    rw [eq]
    refine ⟨rfl, rfl, rfl, rfl, rfl, settled.set found, same, ?_⟩
    rw [if_neg last]
    exact comp_update _ _ _ _

theorem vfsIput_fdt [DecidableEq I] (s : Vfs T D F I) (i : I) : (vfsIput s i).fdt = s.fdt := by
  rw [vfsIput]
  split
  · rfl
  · split <;> rfl

theorem filePut_fdt [DecidableEq F] [DecidableEq I] (s : Vfs T D F I) (f : F) : (filePut s f).fdt = s.fdt := by
  rw [filePut]
  split
  · rfl
  · split
    · exact vfsIput_fdt _ _
    · rfl

theorem fileGet_fdt [DecidableEq F] (s : Vfs T D F I) (f : F) : (fileGet s f).fdt = s.fdt := by
  rw [fileGet]
  split <;> rfl

/-- vfs_iput takes back what vfs_iget gave an inode with a name. -/
theorem vfsIput_iget [DecidableEq I] (node : s.inodes.cells i = some { ino with count := ino.count + 1 })
    (positive : 0 < ino.count) : vfsIput s i = { s with inodes := s.inodes.set i ino } := by
  rw [vfsIput, node]
  exact if_neg (by simp only; omega)

theorem sysClose_fdt [DecidableEq T] [DecidableEq F] [DecidableEq I] (s : Vfs T D F I) (t : T) (fd : Fin 16) :
    (sysClose s t fd).fdt = update s.fdt (t, fd) none := by
  rw [sysClose]
  cases here : s.fdt (t, fd) with
  | none => exact (Function.update_eq_self_iff.mpr here.symm).symm
  | some f => exact filePut_fdt _ _

variable [Fintype T] [Fintype D] [Fintype F] [DecidableEq F] [DecidableEq I]

structure Inv (s : Vfs T D F I) : Prop where
  slots : Counted s.fdt (refsOf s.files.cells)
  nodes : Counted s.names (countsOf s.inodes.cells)
  files : s.files.Settled
  inodes : s.inodes.Settled
  closed : s.opens.Settled
  inactive : s.inactive = s.inodes.returned

theorem Inv.live_slot (inv : Inv s) (here : s.fdt m = some f) :
    ∃ file, s.files.cells f = some file ∧ refsOf s.files.cells f = some file.refs := by
  obtain ⟨k, found, -⟩ := inv.slots.count_of_points here
  obtain ⟨file, cell, rfl⟩ := Option.map_eq_some_iff.mp found
  exact ⟨file, cell, found⟩

theorem Inv.live_node (inv : Inv s) {x : D ⊕ F} (here : s.names x = some i) :
    ∃ ino, s.inodes.cells i = some ino ∧ countsOf s.inodes.cells i = some ino.count := by
  obtain ⟨k, found, -⟩ := inv.nodes.count_of_points here
  obtain ⟨ino, cell, rfl⟩ := Option.map_eq_some_iff.mp found
  exact ⟨ino, cell, found⟩

theorem Booted.inv (booted : Booted s) : Inv s := by
  have noFile (f : F) : s.files.cells f = none := by rw [booted.files]; rfl
  refine ⟨?_, ⟨fun i k found => ?_, fun i => ?_⟩, by rw [booted.files]; exact .empty, booted.settled, fun f => ?_,
    booted.inactive⟩
  · apply Refcount.Counted.empty
    · intro m
      rw [booted.fdt]
    · intro f
      rw [refsOf, comp_apply, noFile]
      rfl
  · obtain ⟨ino, node, rfl⟩ := Option.map_eq_some_iff.mp found
    obtain ⟨d, named⟩ := (booted.counted i).mp ⟨ino, node⟩
    have only : Refcount.holders s.names i = {.inl d} := by
      ext x
      rw [Refcount.mem_holders, Finset.mem_singleton]
      cases x with
      | inl e =>
        exact ⟨fun other => congrArg Sum.inl (booted.named e d i other named), fun same => by cases same; exact named⟩
      | inr f =>
        refine ⟨fun other => ?_, fun same => by cases same⟩
        rw [Vfs.names, Sum.elim_inr, inodeOf, comp_apply, noFile] at other
        cases other
    rw [booted.first i ino node, only, Finset.card_singleton]
  · rw [Finset.eq_empty_iff_forall_notMem]
    constructor
    · intro dead x holds
      rw [Refcount.mem_holders] at holds
      cases x with
      | inl d =>
        obtain ⟨ino, node⟩ := (booted.counted i).mpr ⟨d, holds⟩
        rw [countsOf, comp_apply, node] at dead
        cases dead
      | inr f =>
        rw [Vfs.names, Sum.elim_inr, inodeOf, comp_apply, noFile] at holds
        cases holds
    · intro unnamed
      cases node : s.inodes.cells i with
      | none =>
        rw [countsOf, comp_apply, node]
        rfl
      | some ino =>
        obtain ⟨d, named⟩ := (booted.counted i).mp ⟨ino, node⟩
        exact absurd (Refcount.mem_holders.mpr (show s.names (.inl d) = some i from named)) (unnamed _)
  · show s.closed f + _ = s.opened f
    rw [booted.closed, booted.opened, show s.opens.cells f = none from noFile f]
    rfl

/-- A file that comes and goes within the call: every table is as it was. -/
theorem Inv.passing (inv : Inv s) {files : Pool F (File I)} {inodes : Pool I Inode} {opened closed : F → Nat}
    (cells : files.cells = s.files.cells) (nodes : inodes.cells = s.inodes.cells) (settled : files.Settled)
    (handed : inodes.Settled) (opens : (⟨s.files.cells, opened, closed⟩ : Pool F (File I)).Settled)
    (inactive : s.inactive = inodes.returned) :
    Inv { s with files := files, inodes := inodes, opened := opened, closed := closed } := by
  refine ⟨?_, ?_, settled, handed, ?_, inactive⟩
  · rw [cells]
    exact inv.slots
  · show Counted (Sum.elim s.dentry (inodeOf files.cells)) (countsOf inodes.cells)
    rw [cells, nodes]
    exact inv.nodes
  · show (⟨files.cells, opened, closed⟩ : Pool F (File I)).Settled
    rw [cells]
    exact opens

theorem Inv.remove [DecidableEq D] (inv : Inv s) (child : Option D) (removed : Bool) :
    Inv (sysRemove s child removed) := by
  cases child with
  | none => exact inv
  | some d =>
    cases removed with
    | false => exact inv
    | true =>
      show Inv (vfsRemoveChild s d)
      rw [vfsRemoveChild]
      cases here : s.dentry d with
      | none => exact inv
      | some i =>
        obtain ⟨ino, node, count⟩ := inv.live_node (show s.names (.inl d) = some i from here)
        have put := vfsIput_spec (s := { s with dentry := update s.dentry d none }) node inv.inactive inv.inodes
        show Inv (vfsIput { s with dentry := update s.dentry d none } i)
        generalize vfsIput { s with dentry := update s.dentry d none } i = u at put
        refine ⟨by rw [put.fdt, put.files]; exact inv.slots, ?_, by rw [put.files]; exact inv.files, put.inodes, ?_,
          put.inactive⟩
        · rw [Vfs.names, put.dentry, put.files, put.counts, ← Sum.update_elim_inl]
          exact inv.nodes.detach here count
        · rw [Vfs.opens, put.files, put.opened, put.closed]
          exact inv.closed

/-- Open files: the references are the slots, a file lives while a slot holds it, and it was closed and
freed as often as it was opened and allocated, but for the live one. -/
structure FilesExact (s : Vfs T D F I) : Prop where
  refs : ∀ f file, s.files.cells f = some file → file.refs = (Refcount.holders s.fdt f).card
  live : ∀ f, s.files.cells f = none ↔ ∀ m, s.fdt m ≠ some f
  closed : ∀ f, s.closed f + (if (s.files.cells f).isSome then 1 else 0) = s.opened f
  freed : ∀ f, s.files.returned f + (if (s.files.cells f).isSome then 1 else 0) = s.files.handed f

/-- The same for an inode: its names are dentries and open files. The root, given by none, has its one
dentry and no open file. -/
def InodeExact (s : Vfs T D F I) : Option I → Prop
  | none => rootInode.count = 1
  | some i =>
    (∀ ino, s.inodes.cells i = some ino → ino.count = (Refcount.holders s.names i).card) ∧
    (s.inodes.cells i = none ↔ ∀ x, s.names x ≠ some i) ∧
    s.inactive i + (if (s.inodes.cells i).isSome then 1 else 0) = s.inodes.handed i ∧
    s.inodes.returned i + (if (s.inodes.cells i).isSome then 1 else 0) = s.inodes.handed i

theorem Inv.filesExact (inv : Inv s) : FilesExact s where
  refs f file cell := inv.slots.exact f _ (by rw [refsOf, comp_apply, cell]; rfl)
  live f := by
    have live := inv.slots.live f
    rw [refsOf, comp_apply, Option.map_eq_none_iff] at live
    rw [live, Finset.eq_empty_iff_forall_notMem]
    simp
  closed := inv.closed
  freed := inv.files

theorem Inv.inodeExact (inv : Inv s) (i : I) : InodeExact s (some i) := by
  refine ⟨fun ino cell => inv.nodes.exact i _ (by rw [countsOf, comp_apply, cell]; rfl), ?_, ?_, inv.inodes i⟩
  · have live := inv.nodes.live i
    rw [countsOf, comp_apply, Option.map_eq_none_iff] at live
    rw [live, Finset.eq_empty_iff_forall_notMem]
    simp
  · rw [inv.inactive]
    exact inv.inodes i

variable [DecidableEq T]

theorem Inv.get (inv : Inv s) (free : s.fdt m = none) (cell : s.files.cells f = some file) :
    Inv (fileGet (setSlot s m (some f)) f) := by
  have here : (setSlot s m (some f)).files.cells f = some file := cell
  have found : refsOf s.files.cells f = some file.refs := by rw [refsOf, comp_apply, cell]; rfl
  rw [fileGet, here]
  refine ⟨?_, ?_, inv.files.set cell, inv.inodes, Pool.Settled.set inv.closed cell, inv.inactive⟩
  · show Counted (update s.fdt m (some f)) (refsOf (update s.files.cells f _))
    rw [refsOf, comp_update]
    exact inv.slots.attach free found
  · show Counted (Sum.elim s.dentry (inodeOf (update s.files.cells f _))) (countsOf s.inodes.cells)
    rw [inodeOf_keep cell]
    exact inv.nodes

theorem Inv.dup (inv : Inv s) (t : T) (oldfd : Fin 16) : Inv (sysDup s t oldfd) := by
  rw [sysDup]
  split
  next f k here slot =>
    obtain ⟨file, cell, -⟩ := inv.live_slot here
    exact inv.get (dupSlot_some slot).2 cell
  · exact inv

theorem Inv.inherit (inv : Inv s) {parent child : T} {slots : List (Fin 16)} (once : slots.Nodup)
    (empty : ∀ k ∈ slots, s.fdt (child, k) = none) : Inv (slots.foldl (inheritSlot parent child) s) := by
  induction slots generalizing s with
  | nil => exact inv
  | cons k rest ih =>
    rw [List.nodup_cons] at once
    have free := empty k List.mem_cons_self
    have slot : (inheritSlot parent child s k).fdt = update s.fdt (child, k) (s.fdt (parent, k)) ∧
        Inv (inheritSlot parent child s k) := by
      rw [inheritSlot]
      cases here : s.fdt (parent, k) with
      | none =>
        refine ⟨rfl, ?_⟩
        have same : setSlot s (child, k) none = s := by
          rw [setSlot, Function.update_eq_self_iff.mpr free.symm]
        exact same.symm ▸ inv
      | some f =>
        obtain ⟨file, cell, -⟩ := inv.live_slot here
        exact ⟨fileGet_fdt _ _, inv.get free cell⟩
    refine ih slot.2 once.2 fun j member => ?_
    have different : (child, j) ≠ (child, k) := by
      simp only [ne_eq, Prod.mk.injEq, true_and]
      rintro rfl
      exact once.1 member
    rw [slot.1, update_of_ne different]
    exact empty j (List.mem_cons_of_mem k member)

variable [DecidableEq D]

/-- The last slot of a file goes: one close, and its inode loses a name. -/
theorem Inv.release (inv : Inv s) (here : s.fdt m = some f) (cell : s.files.cells f = some file)
    (last : file.refs = 1) : Inv (Descriptors.release (setSlot s m none) f file.inode) := by
  have named : s.names (.inr f) = some file.inode := by
    rw [Vfs.names, Sum.elim_inr, inodeOf, comp_apply, cell]
    rfl
  have found : refsOf s.files.cells f = some file.refs := by rw [refsOf, comp_apply, cell]; rfl
  obtain ⟨ino, node, count⟩ := inv.live_node named
  let t := { setSlot s m none with closed := update s.closed f (s.closed f + 1) }
  have put : Iput t (vfsIput t file.inode) file.inode ino := vfsIput_spec node inv.inactive inv.inodes
  show Inv { vfsIput t file.inode with files := (vfsIput t file.inode).files.drop f }
  generalize vfsIput t file.inode = u at put
  refine ⟨?_, ?_, ?_, put.inodes, ?_, put.inactive⟩
  · rw [put.fdt, put.files, Pool.drop_cells, refsOf, comp_update]
    have fewer := inv.slots.detach here found
    rwa [if_pos last] at fewer
  · show Counted (Sum.elim u.dentry (inodeOf (u.files.drop f).cells)) (countsOf u.inodes.cells)
    rw [put.dentry, put.files, Pool.drop_cells, put.counts, inodeOf, comp_update, ← Sum.update_elim_inr]
    exact inv.nodes.detach named count
  · rw [put.files]
    exact inv.files.drop cell
  · show (⟨(u.files.drop f).cells, u.opened, u.closed⟩ : Pool F (File I)).Settled
    rw [put.files, put.opened, put.closed]
    exact Pool.Settled.drop inv.closed cell

theorem Inv.close (inv : Inv s) (t : T) (fd : Fin 16) : Inv (sysClose s t fd) := by
  rw [sysClose]
  cases here : s.fdt (t, fd) with
  | none => exact inv
  | some f =>
    obtain ⟨file, cell, found⟩ := inv.live_slot here
    have cell' : (setSlot s (t, fd) none).files.cells f = some file := cell
    show Inv (filePut (setSlot s (t, fd) none) f)
    rw [filePut, cell']
    by_cases last : file.refs = 1
    · simp only [last]
      exact inv.release here cell last
    · simp only [last]
      refine ⟨?_, ?_, inv.files.set cell, inv.inodes, Pool.Settled.set inv.closed cell, inv.inactive⟩
      · show Counted (update s.fdt (t, fd) none) (refsOf (update s.files.cells f _))
        rw [refsOf, comp_update]
        have fewer := inv.slots.detach here found
        rwa [if_neg last] at fewer
      · show Counted (Sum.elim s.dentry (inodeOf (update s.files.cells f _))) (countsOf s.inodes.cells)
        rw [inodeOf_keep cell]
        exact inv.nodes

section

variable (inv : Inv s)
include inv

theorem Inv.dup2 (t : T) (oldfd newfd : Fin 16) : Inv (sysDup2 s t oldfd newfd) := by
  rw [sysDup2]
  cases here : s.fdt (t, oldfd) with
  | none => exact inv
  | some f =>
    show Inv (if oldfd = newfd then s else fileGet (setSlot (sysClose s t newfd) (t, newfd) (some f)) f)
    split
    · exact inv
    next other =>
      have closed := inv.close t newfd
      have still : (sysClose s t newfd).fdt (t, oldfd) = some f := by
        rw [sysClose_fdt, update_of_ne (by simp [other]), here]
      obtain ⟨file, cell, -⟩ := closed.live_slot still
      exact closed.get (by rw [sysClose_fdt, update_self]) cell

theorem Inv.drain (t : T) (slots : List (Fin 16)) : Inv (slots.foldl (fun s k => sysClose s t k) s) := by
  induction slots generalizing s with
  | nil => exact inv
  | cons k rest ih => exact ih (inv.close t k)

theorem Inv.opened {k : Fin 16} (node : s.inodes.cells i = some ino) (free : s.files.cells f = none)
    (slot : s.fdt (t, k) = none) :
    Inv { s with
      inodes := s.inodes.set i { ino with count := ino.count + 1 }
      files := s.files.take f ⟨1, i⟩
      opened := update s.opened f (s.opened f + 1)
      fdt := update s.fdt (t, k) (some f) } := by
  have unnamed : s.names (.inr f) = none := by
    rw [Vfs.names, Sum.elim_inr, inodeOf, comp_apply, free]
    rfl
  have count : countsOf s.inodes.cells i = some ino.count := by rw [countsOf, comp_apply, node]; rfl
  refine ⟨?_, ?_, inv.files.take free, inv.inodes.set node, Pool.Settled.take inv.closed free, inv.inactive⟩
  · show Counted _ (refsOf (update s.files.cells f _))
    rw [refsOf, comp_update]
    exact inv.slots.fresh slot (by rw [refsOf, comp_apply, free]; rfl)
  · show Counted (Sum.elim s.dentry (inodeOf (update s.files.cells f _))) (countsOf (update s.inodes.cells i _))
    rw [inodeOf, comp_update, ← Sum.update_elim_inr, countsOf, comp_update]
    exact inv.nodes.attach unnamed count

end

theorem Inv.openInode (inv : Inv s) (named : s.dentry d = some i) (free : s.files.cells f = none) (t : T)
    (opens : Bool) : Inv (Descriptors.openInode s t i f opens) := by
  obtain ⟨ino, node, count⟩ := inv.live_node (show s.names (.inl d) = some i from named)
  have positive : 0 < ino.count := by
    obtain ⟨k, found, -, positive⟩ := inv.nodes.count_of_points (show s.names (.inl d) = some i from named)
    rwa [Option.some.inj (count.symm.trans found)]
  have got : vfsIget s i = { s with inodes := s.inodes.set i { ino with count := ino.count + 1 } } := by
    rw [vfsIget, node]
  have back : ((s.inodes.set i { ino with count := ino.count + 1 }).set i ino).cells = s.inodes.cells := by
    rw [Pool.set_cells, Pool.set_cells, Function.update_idem]
    exact Function.update_eq_self_iff.mpr node.symm
  have more : (s.inodes.set i { ino with count := ino.count + 1 }).cells i = some { ino with count := ino.count + 1 } :=
    update_self _ _ _
  have settled := (inv.inodes.set node).set (w := ino) more
  rw [Descriptors.openInode, got]
  cases opens with
  | true =>
    unfold install
    simp only
    generalize slot : freeSlot (fun k => s.fdt (t, k)) = found
    cases found with
    | some k => exact inv.opened node free (freeSlot_iff.mp slot).1
    | none =>
      have ends : ((s.opens.take f ⟨1, i⟩).drop f).Settled := Pool.Settled.take_drop inv.closed free
      have same : (s.opens.take f ⟨1, i⟩).drop f = ⟨s.files.cells, _, _⟩ :=
        congrArg (fun cells => (⟨cells, _, _⟩ : Pool F (File I))) (Pool.take_drop_cells free)
      rw [Descriptors.release, vfsIput_iget more positive]
      exact inv.passing (Pool.take_drop_cells free) back (inv.files.take_drop free) settled (same ▸ ends) inv.inactive
  | false =>
    rw [vfsIput_iget more positive]
    exact inv.passing (Pool.take_drop_cells free) back (inv.files.take_drop free) settled inv.closed inv.inactive

theorem Inv.open_ (inv : Inv s) (t : T) (target : Option D) (opens : Bool) {f : Option F}
    (free : ∀ a, f = some a → s.files.cells a = none) : Inv (sysOpen s t target f opens) := by
  rw [sysOpen]
  cases named : target.bind s.dentry with
  | none => exact inv
  | some i =>
    cases f with
    | none => exact inv
    | some a =>
      obtain ⟨d, -, here⟩ := Option.bind_eq_some_iff.mp named
      show Inv (if (s.inodes.cells i).any (·.openable) then Descriptors.openInode s t i a opens else s)
      split
      · exact inv.openInode here (free a rfl) t opens
      · exact inv

theorem Inv.step {s' : Vfs T D F I} {op : Op T D F} (inv : Inv s) (allowed : fair s op) (first : inheritsFirst s op)
    (made : Descriptors.step s op = some s') : Inv s' := by
  cases op with
  | open_ t target f opens =>
    cases made
    refine inv.open_ t target opens fun a eq => ?_
    subst eq
    exact allowed
  | close t fd =>
    cases made
    exact inv.close t fd
  | dup t oldfd =>
    cases made
    exact inv.dup t oldfd
  | dup2 t oldfd newfd =>
    cases made
    exact inv.dup2 t oldfd newfd
  | inherit parent child =>
    cases made
    exact inv.inherit (List.nodup_finRange 16) fun k _ => first k
  | exit t =>
    cases made
    exact inv.drain t _
  | unlink child removed | rmdir child removed =>
    cases made
    exact inv.remove child removed

/-- In every run in which threads inherit before they open anything, the counts of open files are exact, and so are
those of every inode but the root. -/
theorem counts_exact_iff_not_root (s : Vfs T D F I)
    (reached : Run.Reach step (fun s op => fair s op ∧ inheritsFirst s op) Booted s) :
    FilesExact s ∧ ∀ i : Option I, InodeExact s i ↔ i ≠ none := by
  have inv : Inv s :=
    reached.invariant (fun _ booted => booted.inv) fun _ _ _ inv allowed made => inv.step allowed.1 allowed.2 made
  refine ⟨inv.filesExact, fun i => ?_⟩
  cases i with
  | none => exact iff_of_false (show ¬ rootInode.count = 1 by decide) (by simp)
  | some i => exact iff_of_true (inv.inodeExact i) (by simp)

end Counts

def oneFile : Vfs (Fin 2) (Fin 1) (Fin 1) (Fin 1) where
  fdt := fun _ => none
  dentry := fun d => some d
  files := Pool.empty
  inodes := ⟨fun _ => some ⟨1, true⟩, fun _ => 1, fun _ => 0⟩
  opened := fun _ => 0
  closed := fun _ => 0
  inactive := fun _ => 0

theorem oneFile_booted : Booted oneFile :=
  ⟨rfl, rfl, fun d d' _ _ _ => Subsingleton.elim d d', fun i => ⟨fun _ => ⟨i, rfl⟩, fun _ => ⟨_, rfl⟩⟩,
    fun _ _ eq => by cases eq; rfl, fun _ => rfl, rfl, rfl, rfl⟩

/-- The file is opened and its name removed: it lives on with one reference. -/
theorem counts_exact_unlinked : ∃ s : Vfs (Fin 2) (Fin 1) (Fin 1) (Fin 1),
    Run.Reach step (fun s op => fair s op ∧ inheritsFirst s op) Booted s ∧
      s.dentry 0 = none ∧ s.fdt (0, 0) = some 0 ∧ FilesExact s ∧ InodeExact s (some 0) := by
  let s := sysRemove (sysOpen oneFile 0 (some 0) (some 0) true) (some 0) true
  have reached : Run.Reach step (fun s op => fair s op ∧ inheritsFirst s op) Booted s :=
    .next (a := .unlink (some 0) true)
      (.next (a := .open_ 0 (some 0) (some 0) true) (.start oneFile_booted) ⟨rfl, trivial⟩ rfl) ⟨trivial, trivial⟩ rfl
  have counts := counts_exact_iff_not_root s reached
  exact ⟨s, reached, by decide, by decide, counts.1, (counts.2 (some 0)).mpr (by simp)⟩

/-- The count of the root's inode is zero from the start. And thread 1 opens a file before it inherits the empty table
of thread 0: the file has a reference and no slot. -/
theorem root_count_zero : (∃ s : Vfs (Fin 2) (Fin 1) (Fin 1) (Fin 1), Run.Reach step fair Booted s ∧
    ¬ InodeExact s none) ∧
    ∃ s : Vfs (Fin 2) (Fin 1) (Fin 1) (Fin 1), Run.Reach step fair Booted s ∧ ¬ FilesExact s := by
  refine ⟨⟨oneFile, .start oneFile_booted, by show ¬ rootInode.count = 1; decide⟩, ?_⟩
  refine ⟨kthreadInheritFds (sysOpen oneFile 1 (some 0) (some 0) true) 0 1, ?_, fun exact_ => ?_⟩
  · exact .next (a := .inherit 0 1) (.next (a := .open_ 1 (some 0) (some 0) true) (.start oneFile_booted) rfl rfl)
      trivial rfl
  · have refs := exact_.refs 0 ⟨1, 0⟩ (by decide)
    revert refs
    decide +kernel

end Kappara.Descriptors
