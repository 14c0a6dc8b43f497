import Kappara.Fs.Steps

/-! Writing through one file and the others on the mount.

The blocks of an unlinked file go back to the bitmap while it may still be open.
Until they are handed out again a write through it reaches nobody; afterwards it
reaches the new owner. -/

set_option autoImplicit false

namespace Kappara.Fs

variable {n m : Nat} {fs fs' : Mount n m} {i j : Fin n}

def contents (fs : Mount n m) (kf : KfsFile) : List Byte :=
  (List.range kf.sizeBytes).map fun p => fs.disk (kf.startBlock + p / 512) (Fin.ofNat 512 p)

/-- A file keeps its record, its bytes and its entry on the disk; a directory keeps what it
lists, in memory and on the disk, up to the sizes that belong to the files. -/
def Unchanged (fs fs' : Mount n m) (j : Fin n) : Prop :=
  match fs.inodes j with
  | none => fs'.inodes j = none
  | some ⟨count, .reg kf⟩ =>
    fs'.inodes j = some ⟨count, .reg kf⟩ ∧ contents fs' kf = contents fs kf ∧
      dirent (fs'.disk kf.dirBlock) kf.direntIdx = dirent (fs.disk kf.dirBlock) kf.direntIdx
  | some ⟨count, .dir block children⟩ =>
    fs'.inodes j = some ⟨count, .dir block children⟩ ∧
      ∀ slot, (dirent (fs.disk block) slot).Same (dirent (fs'.disk block) slot)

theorem Unchanged.congr {fs₁ : Mount n m} (unchanged : Unchanged fs fs₁ j) (disk : fs'.disk = fs₁.disk)
    (inode : fs'.inodes j = fs₁.inodes j) : Unchanged fs fs' j := by
  unfold Unchanged contents at *
  rw [disk, inode]
  exact unchanged

theorem Unchanged.refl (fs : Mount n m) (j : Fin n) : Unchanged fs fs j := by
  unfold Unchanged
  split
  next gone => exact gone
  next reg => exact ⟨reg, rfl, rfl⟩
  next dir => exact ⟨dir, fun _ => .refl _⟩

theorem vfsWalk_congr (dirs : ∀ d count block children,
      fs'.inodes d = some ⟨count, .dir block children⟩ ↔ fs.inodes d = some ⟨count, .dir block children⟩)
    (at_ : Fin n) (path : List Name) : vfsWalk fs' at_ path = vfsWalk fs at_ path := by
  induction path generalizing at_ with
  | nil => rfl
  | cons first rest ih =>
    rw [vfsWalk, vfsWalk]
    split
    next dir =>
      rw [(dirs _ _ _ _).mp dir]
      dsimp only
      split
      · rfl
      · exact ih _
    next notDir =>
      split
      next count block children dir => exact absurd ((dirs _ _ _ _).mpr dir) (notDir count block children)
      · rfl

variable {p d : Fin n} {name : Name} {block count : Nat} {slot : Fin 26} {e : Dirent}

theorem Layout.entry_injective (sound : Layout fs) {p' : Fin n} {name' : Name} {block' : Nat}
    {e' : Dirent} (one : Lists fs p name i) (two : Lists fs p' name' j) (entry : Entry fs p block slot e)
    (entry' : Entry fs p' block' slot e') (same : p = p') (named : e.named name = true)
    (named' : e'.named name' = true) : i = j := by
  subst same
  obtain rfl := Table.unique entry.table entry'.table
  have sameEntry : e = e' := by rw [← entry.here, ← entry'.here]
  subst sameEntry
  obtain rfl := Dirent.named_unique named named'
  obtain ⟨b, children, dir, inside⟩ := one
  obtain ⟨b', children', dir', inside'⟩ := two
  rw [IsDir] at dir dir'
  rw [dir] at dir'
  cases dir'
  exact congrArg Prod.snd (List.inj_on_of_nodup_map (sound.single _ _ _ _ dir).2.1 inside inside' rfl)

namespace Scribbled

variable {kf : KfsFile} {touched : Nat → Prop} {push : Prop} (scribbled : Scribbled fs fs' i kf touched push)
  (sound : Layout fs) (spared : Spared fs i kf touched push)
include scribbled sound spared

section

variable (listed : Lists fs p name j) (other : j ≠ i) (entry : Entry fs p block slot e) (named : e.named name = true)
include listed other entry named

/-- The blocks of another file are neither touched nor the table that takes the size. -/
theorem block_spared {b : Nat} (file : e.isdir = false) (covered : e.covers b) : fs'.disk b = fs.disk b := by
  have taken := (sound.owned _ _ _ _ b entry covered).2
  have notTable : ∀ t, ¬Table fs t b := by
    intro t table
    have isDir := (sound.covering entry table covered).1
    rw [file] at isDir
    cases isDir
  obtain ⟨count, _, here, _⟩ := scribbled.own
  apply scribbled.plain b
  · intro hit
    cases spared with
    | linked listed' own =>
      obtain ⟨e', entry', named', file', start, alloc, _⟩ := sound.entry_of listed' here
      obtain ⟨low, high⟩ := own b hit
      have covered' : e'.covers b := by
        rw [Dirent.covers, file', ← start, if_neg Bool.false_ne_true]
        omega
      obtain ⟨sameDir, rfl⟩ := sound.apart _ _ _ _ _ _ _ _ b entry entry' covered covered'
      exact other (sound.entry_injective listed listed' entry entry' sameDir named named')
    | free clear _ =>
      rw [clear b hit] at taken
      cases taken
  · rintro ⟨pushes, rfl⟩
    cases spared with
    | linked listed' own =>
      obtain ⟨e', entry', _⟩ := sound.entry_of listed' here
      exact notTable _ entry'.table
    | free _ slot =>
      cases slot pushes with
      | inl clear =>
        rw [clear] at taken
        cases taken
      | inr empty =>
        obtain ⟨⟨t, table⟩, _⟩ := empty
        exact notTable t table

theorem dirent_spared : dirent (fs'.disk block) slot = e := by
  have spare := scribbled.table_spared sound spared entry.table
  obtain ⟨count, _, here, _⟩ := scribbled.own
  by_cases hit : push ∧ block = kf.dirBlock
  · obtain ⟨pushes, rfl⟩ := hit
    obtain ⟨size, now⟩ := scribbled.pushed pushes spare
    have otherSlot : slot ≠ kf.direntIdx := by
      rintro rfl
      cases spared with
      | linked listed' own =>
        obtain ⟨e', entry', named', _⟩ := sound.entry_of listed' here
        have sameDir := sound.alone _ _ _ entry.table entry'.table
        exact other (sound.entry_injective listed listed' entry entry' sameDir named named')
      | free _ slot =>
        cases slot pushes with
        | inl clear =>
          have taken := (sound.dir_block entry.table).2
          rw [clear] at taken
          cases taken
        | inr empty =>
          have used := entry.used
          rw [← entry.here, empty.2] at used
          cases used
    rw [now, dirent_setSize_of_ne _ _ otherSlot, entry.here]
  · rw [scribbled.plain block spare hit, entry.here]

end

theorem unchanged (reachable : j = fs.mountpoint ∨ ∃ p name, Lists fs p name j) (other : j ≠ i) :
    Unchanged fs fs' j := by
  have same := scribbled.others j other
  unfold Unchanged
  split
  next gone => rw [same, gone]
  next count kf' reg =>
    cases reachable with
    | inl root =>
      obtain ⟨children, dir⟩ := sound.root
      rw [IsDir, ← root, reg] at dir
      cases dir
    | inr listed =>
      obtain ⟨p, name, listed⟩ := listed
      obtain ⟨e, entry, named, file, start, _, size⟩ := sound.entry_of listed reg
      refine ⟨same.trans reg, ?_, ?_⟩
      · apply List.map_congr_left
        intro k inside
        have below := List.mem_range.mp inside
        have covered : e.covers (kf'.startBlock + k / 512) := by
          rw [Dirent.covers, file, ← start, if_neg Bool.false_ne_true]
          omega
        rw [scribbled.block_spared sound spared listed other entry named file covered]
      · rw [scribbled.dirent_spared sound spared listed other entry named, entry.here]
  next count block children dir =>
    obtain ⟨rfl, _⟩ := sound.single _ _ _ _ dir
    exact ⟨same.trans dir, fun slot => scribbled.entries sound spared ⟨_, dir⟩ slot⟩

end Scribbled

/-- The open file that is left after the truncation changes its own inode only. -/
theorem opened_unchanged {fs₁ : Mount n m} {f : Fin m} {c : Cursor n} {kf : KfsFile} {path : List Name}
    (here : fs₁.inodes i = some ⟨count, .reg kf⟩) (found : vfsLookup fs₁ path = some j) (unchanged : Unchanged fs fs₁ j)
    (other : j ≠ i) :
    vfsLookup { vfsIget fs₁ i with files := Function.update (vfsIget fs₁ i).files f (some c) } path = some j ∧
      Unchanged fs { vfsIget fs₁ i with files := Function.update (vfsIget fs₁ i).files f (some c) } j := by
  have now : vfsIget fs₁ i = { fs₁ with inodes := Function.update fs₁.inodes i (some ⟨count + 1, .reg kf⟩) } := by
    rw [vfsIget, here]
  rw [now]
  constructor
  · rw [← found]
    refine vfsWalk_congr ?_ _ path
    intro d count' block children
    dsimp only
    by_cases own : d = i
    · subst own
      simp [here]
    · rw [Function.update_of_ne own]
  · exact unchanged.congr rfl (Function.update_of_ne other _ _)

-- The file a call writes through.
def through (fs : Mount n m) : Op n m → Option (Fin n)
  | .write f _ => (fdGet fs f).map (·.1.ino)
  | .open path true _ =>
    match vfsLookup fs path with
    | none => none
    | some i => (regOf fs i).map fun _ => i
  | _ => none

-- A mounted image whose entries own disjoint runs, before anything is opened.
def Mounted (fs : Mount n m) : Prop := Sound fs ∧ ∀ f, fs.files f = none

theorem reached_sound (reached : Run.Reach step writesApart Mounted fs) : Sound fs :=
  Run.Reach.invariant (fun _ first => first.1) (fun _ _ _ sound allowed made => sound.step allowed made) reached

/-- In every run whose writes through unlinked files find the blocks still free, no write and no
truncating open changes any other file or directory. -/
theorem files_apart_when_unreused {o : Op n m} {path : List Name} (reached : Run.Reach step writesApart Mounted fs)
    (allowed : writesApart fs o) (made : step fs o = some fs') (writes : through fs o = some i)
    (found : vfsLookup fs path = some j) (other : j ≠ i) : vfsLookup fs' path = some j ∧ Unchanged fs fs' j := by
  have sound := reached_sound reached
  have reachable := vfsWalk_listed sound.toLayout found
  cases o with
  | write f buf =>
    rw [through, Option.map_eq_some_iff] at writes
    obtain ⟨⟨c, count, kf⟩, opened, rfl⟩ := writes
    rw [step, opened] at made
    cases made
    obtain ⟨opened', here⟩ := fdGet_some opened
    have scribbled := regfileWrite_scribbled opened' here buf
    have spared := write_spared sound.toLayout opened allowed
    refine ⟨?_, scribbled.unchanged sound.toLayout spared reachable other⟩
    rw [vfsLookup, scribbled.mount, vfsWalk_congr (scribbled.kept sound.toLayout spared).dirs]
    exact found
  | «open» path' trunc opening =>
    cases trunc with
    | false => cases writes
    | true =>
      rw [through] at writes
      split at writes
      · cases writes
      next i' there =>
        obtain ⟨⟨count, kf⟩, reg, rfl⟩ := Option.map_eq_some_iff.mp writes
        have here := regOf_some reg
        obtain ⟨p, name, listed⟩ := vfsLookup_listed sound.toLayout there here
        have spared : Spared fs i' kf (fun _ => False) True := .linked listed fun _ => False.elim
        have scribbled := truncate_scribbled here
        have unchanged := scribbled.unchanged sound.toLayout spared reachable other
        have truncated : vfsLookup (pushSize fs i' count kf 0) path = some j := by
          rw [← found]
          exact vfsWalk_congr (scribbled.kept sound.toLayout spared).dirs _ path
        obtain ⟨granted, made⟩ := Option.ite_none_right_eq_some.mp made
        rw [there] at made
        dsimp only at made
        rw [reg] at made
        cases made
        cases opening with
        | noMemory => exact ⟨found, .refl fs j⟩
        | noDescriptor => exact ⟨truncated, unchanged⟩
        | file f => exact opened_unchanged (Function.update_self i' _ fs.inodes) truncated unchanged other
  | creat | mkdir | unlink | rmdir | read | seek | close => cases writes

section Start

-- The record kfs_mount makes for an entry.
def Dirent.file (e : Dirent) (block : Nat) (slot : Fin 26) : KfsFile where
  startBlock := e.start
  sizeBytes := e.sizeBytes.toNat
  allocBlocks := 64
  dirBlock := block
  direntIdx := slot

/-- A mount whose only directory is the root: a run behind the next for the files of its table. -/
structure Flat (fs : Mount n m) (children : List (Name × Fin n)) : Prop where
  root : fs.inodes fs.mountpoint = some ⟨1, .dir 2 children⟩
  only : ∀ i inode, fs.inodes i = some inode → i = fs.mountpoint ∨ ∃ name, (name, i) ∈ children
  names : (children.map (·.1)).Nodup
  child : ∀ name i, (name, i) ∈ children → ∃ slot, (dirent (fs.disk 2) slot).used = true ∧
    (dirent (fs.disk 2) slot).named name = true ∧ fs.inodes i = some ⟨1, .reg ((dirent (fs.disk 2) slot).file 2 slot)⟩
  listed : ∀ slot, (dirent (fs.disk 2) slot).used = true → ∃ name i, (name, i) ∈ children ∧
    (dirent (fs.disk 2) slot).named name = true
  files : ∀ slot, (dirent (fs.disk 2) slot).used = true → (dirent (fs.disk 2) slot).isdir = false ∧
    (dirent (fs.disk 2) slot).start = 3 + 64 * slot ∧ (dirent (fs.disk 2) slot).sizeBytes.toNat ≤ 32768
  apart : ∀ slot slot' name, (dirent (fs.disk 2) slot).used = true → (dirent (fs.disk 2) slot').used = true →
    (dirent (fs.disk 2) slot).named name = true → (dirent (fs.disk 2) slot').named name = true → slot = slot'
  reserved : ∀ b < 3, fs.bitmap b = true
  taken : ∀ slot b, (dirent (fs.disk 2) slot).used = true → 3 + 64 * slot.val ≤ b → b < 3 + 64 * slot.val + 64 →
    fs.bitmap b = true ∧ b < fs.nblocks
  closed : ∀ f, fs.files f = none

namespace Flat

variable {children : List (Name × Fin n)} (flat : Flat fs children)
include flat

theorem inode {i : Fin n} {body : Body n} (here : fs.inodes i = some ⟨count, body⟩) :
    count = 1 ∧ (i = fs.mountpoint ∧ body = .dir 2 children ∨ ∃ kf, body = .reg kf) := by
  cases flat.only i _ here with
  | inl root =>
    rw [root, flat.root] at here
    cases here
    exact ⟨rfl, .inl ⟨root, rfl⟩⟩
  | inr listed =>
    obtain ⟨name, inside⟩ := listed
    obtain ⟨slot, _, _, there⟩ := flat.child name i inside
    rw [there] at here
    cases here
    exact ⟨rfl, .inr ⟨_, rfl⟩⟩

theorem dir {listed : List (Name × Fin n)}
    (here : fs.inodes d = some ⟨count, .dir block listed⟩) :
    count = 1 ∧ d = fs.mountpoint ∧ block = 2 ∧ listed = children := by
  obtain ⟨one, root | ⟨kf, reg⟩⟩ := flat.inode here
  · obtain ⟨root, body⟩ := root
    cases body
    exact ⟨one, root, rfl, rfl⟩
  · cases reg

theorem table (table : Table fs d block) : d = fs.mountpoint ∧ block = 2 := by
  obtain ⟨listed, here⟩ := table
  obtain ⟨_, root, two, _⟩ := flat.dir here
  exact ⟨root, two⟩

theorem lists {i : Fin n} (listed : Lists fs d name i) : (name, i) ∈ children := by
  obtain ⟨block, listed, here, inside⟩ := listed
  obtain ⟨_, _, _, rfl⟩ := flat.dir here
  exact inside

theorem entry (entry : Entry fs d block slot e) :
    d = fs.mountpoint ∧ block = 2 ∧ dirent (fs.disk 2) slot = e ∧ (dirent (fs.disk 2) slot).used = true := by
  obtain ⟨rfl, rfl⟩ := flat.table entry.table
  exact ⟨rfl, rfl, entry.here, by rw [entry.here, entry.used]⟩

theorem covers {b : Nat} (used : (dirent (fs.disk 2) slot).used = true) :
    (dirent (fs.disk 2) slot).covers b ↔ 3 + 64 * slot.val ≤ b ∧ b < 3 + 64 * slot.val + 64 := by
  obtain ⟨file, start, _⟩ := flat.files slot used
  rw [Dirent.covers, file, start, if_neg Bool.false_ne_true]

theorem layout : Layout fs where
  root := ⟨_, flat.root⟩
  single d count block listed here := by
    obtain ⟨one, _, rfl, rfl⟩ := flat.dir here
    exact ⟨one, flat.names, Nat.le_refl 2, flat.reserved 2 (by decide)⟩
  alone d d' block one two := (flat.table one).1.trans (flat.table two).1.symm
  owned d block slot e b entry covered := by
    obtain ⟨_, _, rfl, used⟩ := flat.entry entry
    obtain ⟨low, high⟩ := (flat.covers used).mp covered
    exact ⟨by omega, (flat.taken slot b used low high).1⟩
  apart d block slot e d' block' slot' e' b one two covered covered' := by
    obtain ⟨rfl, _, rfl, used⟩ := flat.entry one
    obtain ⟨rfl, _, rfl, used'⟩ := flat.entry two
    have first := (flat.covers used).mp covered
    have second := (flat.covers used').mp covered'
    exact ⟨rfl, Fin.ext (by omega)⟩
  names d block slot slot' e e' name one two named named' := by
    obtain ⟨_, _, rfl, used⟩ := flat.entry one
    obtain ⟨_, _, rfl, used'⟩ := flat.entry two
    exact flat.apart slot slot' name used used' named named'
  inner d block table notRoot := absurd (flat.table table).1 notRoot
  placed d block name i table listed := by
    obtain ⟨rfl, rfl⟩ := flat.table table
    obtain ⟨slot, used, named, here⟩ := flat.child name i (flat.lists listed)
    obtain ⟨file, _, size⟩ := flat.files slot used
    exact ⟨slot, _, ⟨table, rfl, used⟩, named, .reg here file rfl rfl rfl rfl size⟩

theorem sound : Sound fs where
  toLayout := flat.layout
  live f c opened := by
    rw [flat.closed f] at opened
    cases opened
  opens i count kf here := by simp [opensOf, flat.closed]
  named i count kf p name here listed := by simp [opensOf, flat.closed, (flat.inode here).1]

end Flat

theorem mkimage_flat (nblocks : Nat) (mountpoint : Fin n) : Flat (kfsMkimage nblocks mountpoint : Mount n m) [] := by
  have blank : ∀ slot, (dirent ((kfsMkimage nblocks mountpoint : Mount n m).disk 2) slot).used ≠ true := by
    intro slot used
    have zero : (dirent ((kfsMkimage nblocks mountpoint : Mount n m).disk 2) slot).used = false := zero_unused slot
    rw [zero] at used
    cases used
  refine ⟨by simp [kfsMkimage], ?_, List.nodup_nil, by simp, fun slot used => absurd used (blank slot),
    fun slot used => absurd used (blank slot), fun slot _ _ used => absurd used (blank slot), ?_,
    fun slot _ used => absurd used (blank slot), fun _ => rfl⟩
  · intro i inode here
    by_cases same : i = mountpoint
    · exact .inl same
    · simp [kfsMkimage, same] at here
  · intro b low
    simp [kfsMkimage, kfsBitSetRun_apply, low]

end Start

theorem mkimage_mounted (nblocks : Nat) (mountpoint : Fin n) : Mounted (kfsMkimage nblocks mountpoint : Mount n m) :=
  ⟨(mkimage_flat nblocks mountpoint).sound, (mkimage_flat nblocks mountpoint).closed⟩

section Examples

def fileA : Name := ⟨[97], by decide⟩

def fileB : Name := ⟨[98], by decide⟩

def home : Mount 3 2 := kfsMkimage 200 0

theorem home_mounted : Mounted home := mkimage_mounted 200 0

-- The first file is unlinked while it is open, before or after the second one is made.
def spare : List (Op 3 2) :=
  [.creat [] fileB (.both 2), .creat [] fileA (.both 1), .open [fileA] false (.file 0), .unlink [] fileA]

def reuse : List (Op 3 2) :=
  [.creat [] fileA (.both 1), .open [fileA] false (.file 0), .unlink [] fileA, .creat [] fileB (.both 2),
    .open [fileB] false (.file 1), .write 1 [1, 2]]

theorem files_apart_when_unreused_unlinked : ∃ fs fs' : Mount 3 2, Run.Reach step writesApart Mounted fs ∧
    linked fs 1 = false ∧ step fs (.write 0 [9]) = some fs' ∧ vfsLookup fs' [fileB] = some 2 ∧ Unchanged fs fs' 2 := by
  obtain ⟨fs, reached, unlinked, allowed, possible, writes, found⟩ :
    ∃ fs, Run.Reach step writesApart Mounted fs ∧ linked fs 1 = false ∧
      writesApart fs (.write 0 [9]) ∧ (step fs (.write 0 [9])).isSome ∧ through fs (.write 0 [9]) = some 1 ∧
      vfsLookup fs [fileB] = some 2 := Run.Reach.found spare home_mounted (by decide +kernel)
  obtain ⟨fs', made⟩ := Option.isSome_iff_exists.mp possible
  exact ⟨fs, fs', reached, unlinked, made,
    files_apart_when_unreused reached allowed made writes found (by decide)⟩

/-- The second file has the blocks of the first one, and a write through the first one changes its bytes. -/
theorem unlinked_write_changes_new_file : ∃ fs fs' : Mount 3 2, Run.Reach step (fun _ _ => True) Mounted fs ∧
    step fs (.write 0 [9]) = some fs' ∧ through fs (.write 0 [9]) = some 1 ∧ vfsLookup fs [fileB] = some 2 ∧
    ¬Unchanged fs fs' 2 := by
  obtain ⟨fs, reached, writes, found, change⟩ : ∃ fs, Run.Reach step (fun _ _ => True) Mounted fs ∧
      through fs (.write 0 [9]) = some 1 ∧ vfsLookup fs [fileB] = some 2 ∧ ((step fs (.write 0 [9])).any fun fs' =>
        (regOf fs 2).any fun found => found.2.sizeBytes == 2 && fs.disk found.2.startBlock 0 == 1 &&
          fs'.disk found.2.startBlock 0 == 9) = true := Run.Reach.found reuse home_mounted (by decide +kernel)
  simp only [Bool.and_eq_true, beq_iff_eq, Option.any_eq_true] at change
  obtain ⟨fs', made, ⟨count, kf⟩, reg, ⟨size, before⟩, now⟩ := change
  dsimp only at size before now
  refine ⟨fs, fs', reached, made, writes, found, ?_⟩
  intro unchanged
  rw [Unchanged, regOf_some reg] at unchanged
  have first := congrArg List.head? unchanged.2.1
  have range : List.range 2 = [0, 1] := rfl
  simp only [contents, size, range, List.map_cons, List.head?_cons, Option.some.injEq] at first
  rw [Nat.zero_div, Nat.add_zero] at first
  have clash : (9 : Byte) = 1 := now.symm.trans (first.trans before)
  exact absurd clash (by decide)

end Examples

end Kappara.Fs
