import Kappara.Fs.Tree
import Kappara.Lib.Run

/-! Every call keeps the division of the blocks, as long as no write goes through a
file whose blocks have been given to another one. -/

set_option autoImplicit false

namespace Kappara.Fs

open Function (update update_cases update_of_ne update_self)

variable {n m : Nat} {fs fs' : Mount n m} {d i : Fin n} {block : Nat} {name : Name}

structure Sound (fs : Mount n m) : Prop extends Layout fs, Refs fs

variable {children : List (Name × Fin n)} {x j : Fin n} {made : Made n} {b start : Nat} {path : List Name}
  {slot : Fin 26} {e : Dirent}

section Enter

structure Claimed (fs fs' : Mount n m) (d : Fin n) (block : Nat) (slot : Fin 26) (name : Name) (isdir : Bool)
    (start : Nat) (e : Dirent) : Prop extends Layout.Entered fs fs' d block slot e where
  isdir_eq : e.isdir = isdir
  start_eq : e.start = start
  named : e.named name = true
  files : fs'.files = fs.files
  zeroed : ∀ b, e.covers b → fs'.disk b = fun _ => 0

theorem kfsDirEnter_claimed (isdir : Bool) (table : Table fs d block) (sound : Layout fs) (text : name.bytes ≠ [])
    (made : kfsDirEnter fs block name (if isdir then 1 else 64) (if isdir then dirBit else 0) = some (slot, start, fs'))
    :
    (∃ e, Claimed fs fs' d block slot name isdir start e) ∧
    fs'.nblocks = fs.nblocks ∧ start + (if isdir then 1 else 64) ≤ min fs.nblocks 4096 ∧ fs'.disk 0 = fs.disk 0 ∧
      fs'.disk 1 = bitmapBlock fs'.bitmap ∧ (dirent (fs'.disk block) slot).sizeBytes = 0 := by
  rw [kfsDirEnter] at made
  split at made
  · cases made
  next slot' free =>
    split at made
    · cases made
    next start' fs₁ allocated =>
      cases made
      rw [kfsAllocBlockZero] at allocated
      split at allocated
      · cases allocated
      next found =>
        cases allocated
        obtain ⟨above, below, clear⟩ := findRun_free found
        obtain ⟨short, unused, unnamed⟩ := findSlot_free free
        have small : start < 2 ^ 31 := by omega
        have isdirEq := newDirent_isdir name isdir small
        have startEq := newDirent_start name isdir small
        have covers : ∀ b, (newDirent name start (if isdir then dirBit else 0)).covers b ↔
            start ≤ b ∧ b < start + if isdir then 1 else 64 := by
          intro b
          rw [Dirent.covers, isdirEq, startEq]
        obtain ⟨behind, taken⟩ := sound.dir_block table
        refine ⟨⟨_, ?_, isdirEq, startEq, newDirent_named _ _ short, rfl, ?_⟩, rfl, below, ?_, ?_, ?_⟩
        · refine ⟨table, unused, newDirent_used _ _ short text, ?_, ?_, rfl, rfl, ?_, ?_, ?_⟩
          · intro other i named used
            obtain rfl := Dirent.named_unique named (newDirent_named _ _ short)
            exact unnamed i used
          · intro b covered
            obtain ⟨low, high⟩ := (covers b).mp covered
            exact ⟨by omega, clear b low high⟩
          · intro b
            dsimp only
            rw [kfsBitSetRun_apply]
            split <;> simp_all
          · simp [bdWriteBlock]
          · intro b two here other
            dsimp only
            rw [bdWriteBlock, update_of_ne other, zeroRun_apply, if_neg, kfsBitmapSave, bdWriteBlock,
              update_of_ne (by omega)]
            rintro ⟨low, high⟩
            rw [clear b low high] at here
            cases here
        · intro b covered
          obtain ⟨low, high⟩ := (covers b).mp covered
          dsimp only
          rw [bdWriteBlock, update_of_ne, zeroRun_apply, if_pos ⟨low, high⟩]
          rintro rfl
          rw [clear b low high] at taken
          cases taken
        · dsimp only
          rw [bdWriteBlock, update_of_ne (by omega), zeroRun_apply, if_neg (by omega), kfsBitmapSave, bdWriteBlock,
            update_of_ne (by decide)]
        · dsimp only
          rw [bdWriteBlock, update_of_ne (by omega), zeroRun_apply, if_neg (by omega), kfsBitmapSave, bdWriteBlock,
            update_self]
        · simp [bdWriteBlock, newDirent]

theorem Sound.enter (sound : Sound fs) (entered : Layout.Entered fs fs' d block slot e) (files : fs'.files = fs.files) :
    Sound fs' where
  toLayout := entered.layout sound.toLayout
  toRefs := sound.keep (fun f => by rw [files]) (fun i count => by rw [entered.inodes])
    fun p other i => (Layout.lists_congr entered.inodes).mp

theorem addChild_attached (name : Name) (body : Body n) (dir : IsDir fs d block children) (fresh : fs.inodes x = none) :
    Layout.Attached fs (addChild fs d name body (.both x)) d block children name x body := by
  have notDir : x ≠ d := by
    rintro rfl
    rw [IsDir, fresh] at dir
    cases dir
  rw [addChild, dir]
  refine ⟨dir, fresh, rfl, rfl, rfl, ?_, ?_, ?_⟩
  · dsimp only
    rw [update_of_ne notDir.symm, update_self]
  · dsimp only
    rw [update_self]
  · intro i other notNew
    dsimp only
    rw [update_of_ne notNew, update_of_ne other]

/-- Listing the inode behind the new entry is the second half of creat and mkdir. -/
theorem Sound.create {isdir : Bool} {body : Body n} (sound : Sound fs)
    (claimed : Claimed fs fs' d block slot name isdir start e) (fits : Layout.Fits fs' block slot e body)
    (granted : grantable fs made = true) : Sound (addChild fs' d name body made) := by
  have entry := sound.enter claimed.toEntered claimed.files
  cases made with
  | none | unnamed => exact entry
  | bare => cases granted
  | both x =>
    obtain ⟨children, dir⟩ := claimed.table
    have dir' : IsDir fs' d block children := by rwa [IsDir, claimed.inodes]
    have fresh : fs'.inodes x = none := by
      rw [claimed.inodes]
      exact Option.isNone_iff_eq_none.mp granted
    have unlisted : ∀ y, (name, y) ∉ children := by
      intro y inside
      obtain ⟨slot', e', old, named', _⟩ := sound.placed d block name y ⟨_, dir⟩ ⟨_, _, dir, inside⟩
      have other := claimed.unnamed name slot' claimed.named (by rw [old.here, old.used])
      rw [old.here, named'] at other
      cases other
    have attached := addChild_attached name body dir' fresh
    exact ⟨attached.layout entry.toLayout claimed.new claimed.named unlisted fits,
      entry.attach (addChild_rest _ d name body (.both x)).2.1 attached fits⟩

theorem Claimed.fits_reg (claimed : Claimed fs fs' d block slot name false start e) :
    Layout.Fits fs' block slot e (.reg { startBlock := start, sizeBytes := 0, allocBlocks := 64,
                                         dirBlock := block, direntIdx := slot }) :=
  .reg claimed.isdir_eq claimed.start_eq.symm rfl rfl rfl (Nat.zero_le _)

theorem Claimed.fits_dir (claimed : Claimed fs fs' d block slot name true start e) (sound : Layout fs) :
    Layout.Fits fs' block slot e (.dir start []) := by
  obtain rfl := claimed.start_eq
  have covered : e.covers e.start := by simp [Dirent.covers, claimed.isdir_eq]
  refine .dir claimed.isdir_eq ?_ ?_
  · intro t table'
    have taken := (sound.dir_block ((Layout.table_congr claimed.inodes).mp table')).2
    rw [(claimed.fresh _ covered).2] at taken
    cases taken
  · intro slot'
    rw [claimed.zeroed _ covered]
    exact zero_unused slot'

section

variable (sound : Sound fs) (table : Table fs d block) (text : name.bytes ≠ []) (granted : grantable fs made = true)
include sound table text granted

theorem Sound.creat : Sound (kfsDirCreat fs d block name made) := by
  rw [kfsDirCreat]
  split
  · exact sound
  next made =>
    obtain ⟨⟨e, claimed⟩, -⟩ := kfsDirEnter_claimed false table sound.toLayout text made
    exact sound.create claimed claimed.fits_reg granted

theorem Sound.mkdir : Sound (kfsDirMkdir fs d block name made) := by
  rw [kfsDirMkdir]
  split
  · exact sound
  next made =>
    obtain ⟨⟨e, claimed⟩, -⟩ := kfsDirEnter_claimed true table sound.toLayout text made
    exact sound.create claimed (claimed.fits_dir sound.toLayout) granted

end

end Enter

section Remove

section

variable (fs : Mount n m) (i : Fin n)

theorem vfsIput_eq :
    vfsIput fs i = { fs with inodes := update fs.inodes i (Layout.dropped (fs.inodes i)) } := by
  unfold vfsIput
  cases here : fs.inodes i with
  | none =>
    rw [Layout.dropped, Function.update_eq_self_iff.mpr here.symm]
  | some inode =>
    rw [Layout.dropped]
    dsimp only
    split <;> rfl

theorem vfsIput_inodes :
    (vfsIput fs i).inodes = update fs.inodes i (Layout.dropped (fs.inodes i)) := by rw [vfsIput_eq]

@[simp] theorem vfsIput_disk : (vfsIput fs i).disk = fs.disk := by rw [vfsIput_eq]

@[simp] theorem vfsIput_bitmap : (vfsIput fs i).bitmap = fs.bitmap := by rw [vfsIput_eq]

@[simp] theorem vfsIput_files : (vfsIput fs i).files = fs.files := by rw [vfsIput_eq]

@[simp] theorem vfsIput_mountpoint : (vfsIput fs i).mountpoint = fs.mountpoint := by rw [vfsIput_eq]

@[simp] theorem vfsIput_nblocks : (vfsIput fs i).nblocks = fs.nblocks := by rw [vfsIput_eq]

end

section

variable (dir : IsDir fs d block children)
include dir

theorem vfsRemoveChild_missing (missing : findChild children name = none) : vfsRemoveChild fs d name = fs := by
  rw [vfsRemoveChild, dir]
  dsimp only
  rw [missing]

theorem vfsRemoveChild_found (found : findChild children name = some x) :
    vfsRemoveChild fs d name =
      vfsIput { fs with inodes := update fs.inodes d
                          (some ⟨1, .dir block (children.eraseP fun child => child.1 = name)⟩) } x := by
  rw [vfsRemoveChild, dir]
  dsimp only
  rw [found]

theorem vfsRemoveChild_detached (sound : Layout fs) (found : findChild children name = some x)
    (bare : ∀ b, Table fs x b → ∀ slot, (dirent (fs.disk b) slot).used = false) :
    Layout.Detached fs (vfsRemoveChild fs d name) d block children name x := by
  have child := findChild_mem found
  have notDir : x ≠ d := by
    rintro rfl
    exact sound.bare_lists ⟨_, dir⟩ (bare _ ⟨_, dir⟩) ⟨_, _, dir, child⟩
  rw [vfsRemoveChild_found dir found]
  refine ⟨dir, child, bare, by simp, by simp, by simp, ?_, ?_, ?_⟩
  · simp [vfsIput_inodes, notDir.symm]
  · simp [vfsIput_inodes, notDir]
  · intro i other notGone
    simp [vfsIput_inodes, notGone, other]

end

theorem vfsRemoveChild_congr (inodes : fs'.inodes = fs.inodes) :
    (vfsRemoveChild fs' d name).inodes = (vfsRemoveChild fs d name).inodes := by
  rw [vfsRemoveChild, vfsRemoveChild, inodes]
  split
  · split
    · exact inodes
    · rw [vfsIput_inodes, vfsIput_inodes]
  · exact inodes

theorem vfsRemoveChild_rest (fs : Mount n m) (d : Fin n) (name : Name) :
    (vfsRemoveChild fs d name).disk = fs.disk ∧ (vfsRemoveChild fs d name).bitmap = fs.bitmap ∧
      (vfsRemoveChild fs d name).files = fs.files ∧ (vfsRemoveChild fs d name).mountpoint = fs.mountpoint ∧
      (vfsRemoveChild fs d name).nblocks = fs.nblocks := by
  unfold vfsRemoveChild
  split
  · split <;> simp
  · simp

structure Removed (fs fs' : Mount n m) (block : Nat) (name : Name) (slot : Fin 26) (e : Dirent) : Prop where
  here : dirent (fs.disk block) slot = e
  used : e.used = true
  named : e.named name = true
  bare : e.isdir = true → ∀ slot', (dirent (fs.disk e.start) slot').used = false
  inodes : fs'.inodes = fs.inodes
  files : fs'.files = fs.files
  mount : fs'.mountpoint = fs.mountpoint
  bits : ∀ b, fs'.bitmap b = true ↔ ¬e.covers b ∧ fs.bitmap b = true
  cleared : fs'.disk block = setDirent (fs.disk block) slot .empty
  rest : ∀ b, 2 ≤ b → b ≠ block → fs'.disk b = fs.disk b

theorem kfsFreeBlocks_removed (here : dirent (fs.disk block) slot = e) (used : e.used = true)
    (named : e.named name = true) (bare : e.isdir = true → ∀ slot', (dirent (fs.disk e.start) slot').used = false)
    (behind : 2 ≤ block) {count : Nat} (size : count = if e.isdir then 1 else 64) :
    Removed fs (kfsFreeBlocks (clearDirent fs block slot) e.start count) block name slot e := by
  refine ⟨here, used, named, bare, rfl, rfl, rfl, ?_, ?_, ?_⟩
  · intro b
    rw [kfsFreeBlocks, Dirent.covers]
    dsimp only
    rw [kfsBitSetRun_apply]
    split <;> simp_all [clearDirent]
  · simp only [kfsFreeBlocks, kfsBitmapSave, bdWriteBlock, clearDirent]
    rw [update_of_ne (by omega), update_self]
  · intro b two other
    simp only [kfsFreeBlocks, kfsBitmapSave, bdWriteBlock, clearDirent]
    rw [update_of_ne (by omega), update_of_ne other]

theorem kfsDirUnlink_removed (sound : Layout fs) (table : Table fs d block)
    (made : kfsDirUnlink fs block name = some fs') : ∃ slot e, Removed fs fs' block name slot e ∧
      fs' = kfsFreeBlocks (clearDirent fs block slot) e.start (if e.isdir then 1 else 64) := by
  rw [kfsDirUnlink] at made
  split at made
  · cases made
  next slot found =>
    obtain ⟨used, named⟩ := findNamed_some found
    obtain ⟨notDir, made⟩ := Option.ite_none_left_eq_some.mp made
    -- a used entry starts behind the root table, so its blocks are always given back
    split at made
    next zero =>
      have covered : (dirent (fs.disk block) slot).covers 0 := by simp [Dirent.covers, zero, notDir]
      have := (sound.owned d block slot _ 0 ⟨table, rfl, used⟩ covered).1
      omega
    · cases made
      exact ⟨slot, _, kfsFreeBlocks_removed rfl used named (fun isdir => absurd isdir notDir) (sound.dir_block table).1
        (by simp [notDir]), by rw [if_neg notDir]⟩

theorem kfsDirRmdir_removed (sound : Layout fs) (table : Table fs d block)
    (made : kfsDirRmdir fs block name = some fs') : ∃ slot e, (Removed fs fs' block name slot e ∧
      fs' = kfsFreeBlocks (clearDirent fs block slot) e.start (if e.isdir then 1 else 64)) ∧ e.isdir = true := by
  rw [kfsDirRmdir] at made
  split at made
  · cases made
  next slot found =>
    obtain ⟨used, named⟩ := findNamed_some found
    obtain ⟨isDir, made⟩ := Option.ite_none_left_eq_some.mp made
    obtain ⟨bare, ⟨⟩⟩ := Option.ite_none_left_eq_some.mp made
    have isdir : (dirent (fs.disk block) slot).isdir = true := by simpa using isDir
    refine ⟨slot, _, ⟨kfsFreeBlocks_removed rfl used named ?_ (sound.dir_block table).1
      (by simp [isdir]), by rw [if_pos isdir]⟩, isdir⟩
    intro _
    simpa using bare

section

variable (removed : Removed fs fs' block name slot e)
include removed

theorem Removed.detached (sound : Layout fs) (dir : IsDir fs d block children)
    (found : findChild children name = some x) :
    Layout.Detached fs (vfsRemoveChild fs d name) d block children name x := by
  refine vfsRemoveChild_detached dir sound found fun b table => ?_
  obtain ⟨slot', e', entry', named', node⟩ := sound.placed d block name x ⟨_, dir⟩ ⟨_, _, dir, findChild_mem found⟩
  obtain rfl := sound.names _ _ _ _ _ _ name ⟨⟨_, dir⟩, removed.here, removed.used⟩ entry' removed.named named'
  have sameEntry : e' = e := by rw [← entry'.here, ← removed.here]
  subst sameEntry
  obtain ⟨isdir, rfl⟩ := Layout.node_table node table
  exact removed.bare isdir

/-- The dentry is dropped first in the argument: an entry without a dentry is still an owner. -/
theorem Removed.halves (sound : Sound fs) (table : Table fs d block) : Sound (vfsRemoveChild fs d name) ∧
      Layout.Cleared (vfsRemoveChild fs d name) (vfsRemoveChild fs' d name) d block slot e := by
  obtain ⟨children, dir⟩ := id table
  obtain ⟨disk, bits, files, mount, -⟩ := vfsRemoveChild_rest fs d name
  obtain ⟨disk', bits', files', mount', -⟩ := vfsRemoveChild_rest fs' d name
  have dropped : Sound (vfsRemoveChild fs d name) ∧ Table (vfsRemoveChild fs d name) d block ∧
      ∀ i, ¬Lists (vfsRemoveChild fs d name) d name i := by
    cases found : findChild children name with
    | none =>
      rw [vfsRemoveChild_missing dir found]
      refine ⟨sound, table, ?_⟩
      rintro i ⟨b, children', here, inside⟩
      rw [IsDir] at dir here
      rw [dir] at here
      cases here
      exact findChild_none found i inside
    | some x =>
      have child := findChild_mem found
      have detached := removed.detached sound.toLayout dir found
      refine ⟨⟨detached.layout sound.toLayout, sound.detach sound.toLayout files detached⟩,
        (detached.relisted.table (detached.ne sound.toLayout).symm).mpr table, ?_⟩
      intro i listed
      obtain ⟨⟨b, children', here, inside⟩, other⟩ := detached.lists_back sound.toLayout listed
      rw [IsDir] at dir here
      rw [dir] at here
      cases here
      exact other (congrArg Prod.snd (List.inj_on_of_nodup_map (sound.single _ _ _ _ dir).2.1 inside child rfl))
  obtain ⟨sound', table', unlisted⟩ := dropped
  refine ⟨sound', ⟨table', by rw [disk, removed.here], removed.used⟩, ?_, by rw [mount, mount', removed.mount],
    vfsRemoveChild_congr removed.inodes, by rw [bits, bits']; exact removed.bits, by rw [disk, disk', removed.cleared],
    by rw [disk, disk']; exact removed.rest⟩
  intro other i named
  obtain rfl := Dirent.named_unique named removed.named
  exact unlisted i

theorem Sound.remove (sound : Sound fs) (table : Table fs d block) : Sound (vfsRemoveChild fs' d name) := by
  obtain ⟨sound', cleared⟩ := removed.halves sound table
  have files := (vfsRemoveChild_rest fs d name).2.2.1
  have files' := (vfsRemoveChild_rest fs' d name).2.2.1
  exact ⟨cleared.layout sound'.toLayout, sound'.keep (fun f => by rw [files, files', removed.files])
    (fun i count => by rw [cleared.inodes]) fun p other i => (Layout.lists_congr cleared.inodes).mp⟩

end

end Remove

section Files

variable {f : Fin m} {c : Cursor n} {kf : KfsFile} {count : Nat}

theorem regOf_some (found : regOf fs i = some (count, kf)) : fs.inodes i = some ⟨count, .reg kf⟩ := by
  rw [regOf] at found
  split at found
  next here =>
    cases found
    exact here
  · cases found

theorem fdGet_some (found : fdGet fs f = some (c, count, kf)) :
    fs.files f = some c ∧ fs.inodes c.ino = some ⟨count, .reg kf⟩ := by
  rw [fdGet] at found
  split at found
  · cases found
  next opened =>
    obtain ⟨⟨count', kf'⟩, there, same⟩ := Option.map_eq_some_iff.mp found
    cases same
    exact ⟨opened, regOf_some there⟩

/-- What a write or a truncating open through the file of inode i does: it writes the blocks
touched, and the size into the entry of the file where push holds. -/
structure Scribbled (fs fs' : Mount n m) (i : Fin n) (kf : KfsFile) (touched : Nat → Prop) (push : Prop) : Prop where
  mount : fs'.mountpoint = fs.mountpoint
  bits : fs'.bitmap = fs.bitmap
  files : ∀ f, (fs'.files f).map (·.ino) = (fs.files f).map (·.ino)
  others : ∀ j, j ≠ i → fs'.inodes j = fs.inodes j
  own : ∃ count size, fs.inodes i = some ⟨count, .reg kf⟩ ∧
    fs'.inodes i = some ⟨count, .reg { kf with sizeBytes := size }⟩ ∧
      (size = kf.sizeBytes ∨ size ≤ kf.allocBlocks * 512)
  plain : ∀ b, ¬touched b → ¬(push ∧ b = kf.dirBlock) → fs'.disk b = fs.disk b
  pushed : push → ¬touched kf.dirBlock → ∃ size, fs'.disk kf.dirBlock = setSize (fs.disk kf.dirBlock) kf.direntIdx size

/-- The blocks touched are the file's own, or nobody's. -/
inductive Spared (fs : Mount n m) (i : Fin n) (kf : KfsFile) (touched : Nat → Prop) (push : Prop) : Prop where
  | linked {p : Fin n} {name : Name} : Lists fs p name i →
      (∀ b, touched b → kf.startBlock ≤ b ∧ b < kf.startBlock + kf.allocBlocks) → Spared fs i kf touched push
  | free : (∀ b, touched b → fs.bitmap b = false) →
      (push → fs.bitmap kf.dirBlock = false ∨
        (∃ t, Table fs t kf.dirBlock) ∧ (dirent (fs.disk kf.dirBlock) kf.direntIdx).used = false) →
      Spared fs i kf touched push

theorem Layout.entry_of (sound : Layout fs) {p : Fin n} (listed : Lists fs p name i)
    (here : fs.inodes i = some ⟨count, .reg kf⟩) :
    ∃ e, Entry fs p kf.dirBlock kf.direntIdx e ∧ e.named name = true ∧ e.isdir = false ∧ kf.startBlock = e.start ∧
      kf.allocBlocks = 64 ∧ kf.sizeBytes ≤ 64 * 512 := by
  obtain ⟨b, children, dir, _⟩ := id listed
  obtain ⟨slot, e, entry, named, node⟩ := sound.placed p b name i ⟨_, dir⟩ listed
  cases node with
  | reg at_ isdir start dirBlock idx alloc size =>
    rw [here] at at_
    cases at_
    subst dirBlock idx
    exact ⟨e, entry, named, isdir, start, alloc, size⟩
  | dir at_ =>
    rw [here] at at_
    cases at_

namespace Scribbled

variable {touched : Nat → Prop} {push : Prop} (scribbled : Scribbled fs fs' i kf touched push)
  (sound : Layout fs) (spared : Spared fs i kf touched push)
include scribbled sound spared

theorem table_spared {t : Fin n} (table : Table fs t b) : ¬touched b := by
  intro hit
  cases spared with
  | linked listed own =>
    obtain ⟨count, _, here, _⟩ := scribbled.own
    obtain ⟨e, entry, _, isdir, start, alloc, _⟩ := sound.entry_of listed here
    obtain ⟨low, high⟩ := own b hit
    have covered : e.covers b := by
      rw [Dirent.covers, isdir, if_neg Bool.false_ne_true]
      omega
    have isDir := (sound.covering entry table covered).1
    rw [isdir] at isDir
    cases isDir
  | free clear _ =>
    have taken := (sound.dir_block table).2
    rw [clear b hit] at taken
    cases taken

theorem entries {t : Fin n} (table : Table fs t b) (slot : Fin 26) :
    (dirent (fs.disk b) slot).Same (dirent (fs'.disk b) slot) := by
  have spare := scribbled.table_spared sound spared table
  by_cases hit : push ∧ b = kf.dirBlock
  · obtain ⟨pushes, rfl⟩ := hit
    obtain ⟨size, here⟩ := scribbled.pushed pushes spare
    rw [here]
    exact dirent_setSize _ _ _ _
  · rw [scribbled.plain b spare hit]
    exact .refl _

theorem kept : Layout.Kept fs fs' where
  mount := scribbled.mount
  bits := scribbled.bits
  dirs d count block children := by
    by_cases same : d = i
    · subst same
      obtain ⟨count', size, before, after, _⟩ := scribbled.own
      simp [before, after]
    · rw [scribbled.others d same]
  regs p name j count kf' listed here size := by
    by_cases same : j = i
    · subst same
      obtain ⟨count', size', before, after, bound⟩ := scribbled.own
      rw [here] at before
      cases before
      obtain ⟨_, _, _, _, _, alloc, _⟩ := sound.entry_of listed here
      refine ⟨count, size', ?_, after⟩
      cases bound with
      | inl kept => rwa [kept]
      | inr bound => rwa [alloc] at bound
    · exact ⟨count, kf'.sizeBytes, size, (scribbled.others j same).trans here⟩
  entries t b table slot := scribbled.entries sound spared table slot

end Scribbled

theorem Sound.scribble {touched : Nat → Prop} {push : Prop} (sound : Sound fs)
    (scribbled : Scribbled fs fs' i kf touched push) (spared : Spared fs i kf touched push) : Sound fs' where
  toLayout := (scribbled.kept sound.toLayout spared).layout sound.toLayout
  toRefs := by
    refine sound.keep scribbled.files ?_ fun p name j => (scribbled.kept sound.toLayout spared).lists.mp
    intro j count
    by_cases same : j = i
    · subst same
      obtain ⟨count', size, before, after, _⟩ := scribbled.own
      simp [before, after]
    · rw [scribbled.others j same]

theorem regfileCopy_frame (start fuel : Nat) (disk : Nat → Block) (off : Nat) (src : List Byte)
    (outside : ∀ k, off ≤ k → k < off + src.length → b ≠ start + k / 512) :
    regfileCopy start fuel disk off src b = disk b := by
  induction fuel generalizing disk off src with
  | zero => rfl
  | succ fuel ih =>
    rw [regfileCopy]
    split
    · rfl
    next more =>
      have some_ : 0 < src.length := List.length_pos_iff.mpr more
      rw [ih, bdWriteBlock, update_of_ne (outside off (Nat.le_refl _) (by omega))]
      intro k low high
      rw [List.length_drop] at high
      exact outside k (by omega) (by omega)

-- The blocks a write of len bytes at pos goes to.
def touchedBlocks (kf : KfsFile) (pos len : Nat) : List Nat :=
  (List.range len).map fun k => kf.startBlock + (pos + k) / 512

theorem mem_touchedBlocks {pos len : Nat} :
    b ∈ touchedBlocks kf pos len ↔ ∃ k, pos ≤ k ∧ k < pos + len ∧ b = kf.startBlock + k / 512 := by
  simp only [touchedBlocks, List.mem_map, List.mem_range]
  constructor
  · rintro ⟨k, bound, rfl⟩
    exact ⟨pos + k, by omega, by omega, rfl⟩
  · rintro ⟨k, low, high, rfl⟩
    exact ⟨k - pos, by omega, by rw [Nat.add_sub_cancel' low]⟩

section
variable {touched : Nat → Prop} {files : Fin m → Option (Cursor n)} {disk : Nat → Block}
  (here : fs.inodes i = some ⟨count, .reg kf⟩) (inos : ∀ f, (files f).map (·.ino) = (fs.files f).map (·.ino))
  (plain : ∀ b, ¬touched b → disk b = fs.disk b)
include here inos plain

theorem scribbled_disk : Scribbled fs { fs with disk, files } i kf touched False where
  mount := rfl
  bits := rfl
  files := inos
  others _ _ := rfl
  own := ⟨count, kf.sizeBytes, here, here, .inl rfl⟩
  plain b spare _ := plain b spare
  pushed := False.elim

theorem scribbled_push {size : Nat} (bound : size ≤ kf.allocBlocks * 512) :
    Scribbled fs (pushSize { fs with disk, files } i count kf size) i kf touched True where
  mount := rfl
  bits := rfl
  files := inos
  others j other := by
    rw [pushSize, setKf]
    dsimp only
    rw [update_of_ne other]
  own := by
    refine ⟨count, size, here, ?_, .inr bound⟩
    rw [pushSize, setKf]
    dsimp only
    rw [update_self]
  plain b spare missed := by
    rw [pushSize, setKf]
    dsimp only
    rw [bdWriteBlock, update_of_ne (fun same => missed ⟨trivial, same⟩), plain b spare]
  pushed _ spare := by
    refine ⟨size, ?_⟩
    rw [pushSize, setKf]
    dsimp only
    rw [bdWriteBlock, update_self, plain _ spare]

end

theorem moved_inos (opened : fs.files f = some c) (pos : Nat) (g : Fin m) :
    (update fs.files f (some { c with pos }) g).map (·.ino) = (fs.files g).map (·.ino) := by
  by_cases same : g = f
  · subst same
    rw [update_self, opened, Option.map_some, Option.map_some]
  · rw [update_of_ne same]

section

variable (sound : Sound fs) (opened : fs.files f = some c) (here : fs.inodes c.ino = some ⟨count, .reg kf⟩)
include sound opened here

theorem Sound.move (pos : Nat) : Sound { fs with files := update fs.files f (some { c with pos }) } :=
  sound.scribble (scribbled_disk here (moved_inos opened pos) fun _ _ => rfl) (.free (fun _ => False.elim) False.elim)

theorem Sound.read (len : Nat) : Sound (regfileRead fs f c kf len).2 := by
  rw [regfileRead]
  split
  · exact sound
  · exact sound.move opened here _

theorem Sound.seek (offset : Int) (whence : Whence) : Sound (regfileSeek fs f c kf offset whence) := by
  rw [regfileSeek]
  split
  · exact sound
  · exact sound.move opened here _

end

/-- What regfile_write does, as blocks touched and a size pushed or not. -/
theorem regfileWrite_scribbled (opened : fs.files f = some c) (here : fs.inodes c.ino = some ⟨count, .reg kf⟩)
    (buf : List Byte) : Scribbled fs (regfileWrite fs f c count kf buf) c.ino kf
      (· ∈ touchedBlocks kf c.pos (min (kf.allocBlocks * 512 - c.pos) buf.length))
      (c.pos < kf.allocBlocks * 512 ∧ kf.sizeBytes < c.pos + min (kf.allocBlocks * 512 - c.pos) buf.length) := by
  rw [regfileWrite]
  dsimp only
  split
  next full =>
    have same : ¬c.pos < kf.allocBlocks * 512 := by omega
    simp only [same, false_and]
    exact scribbled_disk here (fun _ => rfl) fun _ _ => rfl
  next room =>
    have below : c.pos < kf.allocBlocks * 512 := by omega
    have plain : ∀ b, b ∉ touchedBlocks kf c.pos (min (kf.allocBlocks * 512 - c.pos) buf.length) →
        regfileCopy kf.startBlock (buf.take (kf.allocBlocks * 512 - c.pos)).length fs.disk c.pos
          (buf.take (kf.allocBlocks * 512 - c.pos)) b = fs.disk b := by
      intro b spare
      apply regfileCopy_frame
      intro k low high
      rw [List.length_take] at high
      exact fun same => spare (mem_touchedBlocks.mpr ⟨k, low, high, same⟩)
    split
    next grows =>
      rw [List.length_take] at grows
      have both : (c.pos < kf.allocBlocks * 512 ∧
          kf.sizeBytes < c.pos + min (kf.allocBlocks * 512 - c.pos) buf.length) = True := eq_true ⟨below, grows⟩
      rw [both]
      refine scribbled_push here (moved_inos opened _) plain ?_
      rw [List.length_take]
      omega
    next fits =>
      rw [List.length_take] at fits
      have neither : (c.pos < kf.allocBlocks * 512 ∧
          kf.sizeBytes < c.pos + min (kf.allocBlocks * 512 - c.pos) buf.length) = False := eq_false fun both =>
            fits both.2
      rw [neither]
      exact scribbled_disk here (moved_inos opened _) plain

theorem opensOf_close (opened : fs.files f = some c) (closed : fs'.files = update fs.files f none) :
    opensOf fs' c.ino + 1 = opensOf fs c.ino ∧ ∀ j, j ≠ c.ino → opensOf fs' j = opensOf fs j := by
  have erased : ∀ j, (Finset.univ.filter fun g => (fs'.files g).map (·.ino) = some j) =
      (Finset.univ.filter fun g => (fs.files g).map (·.ino) = some j).erase f := by
    intro j
    ext g
    rw [closed]
    by_cases same : g = f
    · subst same
      simp
    · simp [same]
  constructor
  · rw [opensOf, erased, opensOf, Finset.card_erase_add_one]
    simp [opened]
  · intro j other
    rw [opensOf, erased, opensOf]
    simp [opened, other.symm]

theorem close_rest (other : j ≠ c.ino) : (sysClose fs f c).inodes j = fs.inodes j := by
  rw [sysClose, vfsIput_inodes, update_of_ne other]

section Close
variable (here : fs.inodes c.ino = some ⟨count, .reg kf⟩)
include here

theorem close_own : (sysClose fs f c).inodes c.ino = Layout.dropped (some ⟨count, .reg kf⟩) := by
  rw [sysClose, vfsIput_inodes, update_self, here]

theorem close_reg {count' : Nat} {body : Body n} (now : (sysClose fs f c).inodes j = some ⟨count', body⟩) :
    j ≠ c.ino ∧ fs.inodes j = some ⟨count', body⟩ ∨ j = c.ino ∧ count = count' + 1 ∧ body = .reg kf := by
  by_cases own : j = c.ino
  · subst own
    rw [close_own here] at now
    obtain ⟨more, ⟨⟩⟩ := Option.ite_none_left_eq_some.mp now
    dsimp only at more ⊢
    exact .inr ⟨rfl, by omega, rfl⟩
  · rw [close_rest own] at now
    exact .inl ⟨own, now⟩

theorem close_survives (more : 2 ≤ count) : (sysClose fs f c).inodes c.ino = some ⟨count - 1, .reg kf⟩ := by
  rw [close_own here, Layout.dropped, if_neg (by dsimp only; omega)]

theorem close_kept (refs : Refs fs) (opened : fs.files f = some c) : Layout.Kept fs (sysClose fs f c) := by
  refine ⟨by simp [sysClose], by simp [sysClose], ?_, ?_, fun _ _ _ _ => by simp [sysClose, Dirent.Same.refl]⟩
  · intro d count' block children
    constructor
    · intro now
      cases close_reg here now with
      | inl old => exact old.2
      | inr own => cases own.2.2
    · intro before
      have other : d ≠ c.ino := by
        rintro rfl
        rw [here] at before
        cases before
      rw [close_rest other, before]
  · intro p name j count' kf' listed before size
    by_cases own : j = c.ino
    · subst own
      rw [here] at before
      cases before
      have counted := refs.named _ _ _ _ _ here listed
      have isOpen : opensOf fs c.ino ≠ 0 := fun zero => Refs.not_open zero opened rfl
      exact ⟨count - 1, kf.sizeBytes, size, close_survives here (by omega)⟩
    · exact ⟨count', kf'.sizeBytes, size, (close_rest own).trans before⟩

end Close

theorem Sound.close (sound : Sound fs) (opened : fs.files f = some c) : Sound (sysClose fs f c) := by
  obtain ⟨count, kf, here⟩ := sound.live f c opened
  have closed : (sysClose fs f c).files = update fs.files f none := by simp [sysClose]
  obtain ⟨fewer, same⟩ := opensOf_close opened closed
  have kept := close_kept here sound.toRefs opened
  refine ⟨kept.layout sound.toLayout, sound.balance (fun g c' opened' => ?_) (fun j count' kf' now => ?_)
    fun p name j => kept.lists.mp⟩
  · have before : fs.files g = some c' ∧ g ≠ f := by
      simp only [sysClose, vfsIput_files] at opened'
      rcases update_cases opened' with ⟨-, ⟨⟩⟩ | ⟨own, opened'⟩
      exact ⟨opened', own⟩
    obtain ⟨count', kf', there⟩ := sound.live g c' before.1
    by_cases own : c'.ino = c.ino
    · have stillOpen : opensOf (sysClose fs f c) c.ino ≠ 0 := fun zero => Refs.not_open zero opened' own
      have counted := sound.opens _ _ _ here
      exact ⟨count - 1, kf, own ▸ close_survives here (by omega)⟩
    · exact ⟨count', kf', (close_rest own).trans there⟩
  · cases close_reg here now with
    | inl old => exact ⟨count', kf', old.2, by rw [same j old.1]⟩
    | inr own =>
      obtain ⟨rfl, countEq, _⟩ := own
      exact ⟨count, kf, here, by omega⟩

-- What open leaves: the reference of the new file is counted.
def held (fs : Mount n m) (f : Fin m) (i : Fin n) : Mount n m :=
  { vfsIget fs i with files := update (vfsIget fs i).files f (some { ino := i, pos := 0 }) }

section Hold
variable (here : fs.inodes i = some ⟨count, .reg kf⟩)
include here

theorem held_eq (f : Fin m) : held fs f i = { fs with inodes := update fs.inodes i (some ⟨count + 1, .reg kf⟩)
                                                      files := update fs.files f (some { ino := i, pos := 0 }) } := by
  rw [held, vfsIget, here]

theorem held_own (f : Fin m) : (held fs f i).inodes i = some ⟨count + 1, .reg kf⟩ := by
  rw [held_eq here]
  exact update_self ..

theorem held_rest (f : Fin m) (other : j ≠ i) : (held fs f i).inodes j = fs.inodes j := by
  rw [held_eq here]
  exact update_of_ne other ..

theorem held_kept (f : Fin m) : Layout.Kept fs (held fs f i) := by
  refine ⟨by rw [held_eq here], by rw [held_eq here], ?_, ?_, fun _ _ _ _ => by rw [held_eq here]; exact .refl _⟩
  · intro d count' block children
    by_cases isFile : d = i
    · simp [isFile, held_own here, here]
    · rw [held_rest here f isFile]
  · intro p name j count' kf' listed before size
    by_cases isFile : j = i
    · subst isFile
      rw [here] at before
      cases before
      exact ⟨count + 1, kf.sizeBytes, size, held_own here f⟩
    · exact ⟨count', kf'.sizeBytes, size, (held_rest here f isFile).trans before⟩

end Hold

section

variable (here : fs.inodes i = some ⟨count, .reg kf⟩)
include here

theorem Sound.hold (sound : Sound fs) (free : fs.files f = none) : Sound (held fs f i) := by
  have files : (held fs f i).files = update fs.files f (some { ino := i, pos := 0 }) := by rw [held_eq here]
  have opened : (held fs f i).files f = some { ino := i, pos := 0 } := by rw [files, update_self]
  have closed : fs.files = update (held fs f i).files f none := by
    rw [files, Function.update_idem]
    exact (Function.update_eq_self_iff.mpr free.symm).symm
  obtain ⟨more, same⟩ := opensOf_close opened closed
  dsimp only at more same
  have rest : ∀ j, j ≠ i → (held fs f i).inodes j = fs.inodes j := fun j => held_rest here f
  have own := held_own here f
  have kept := held_kept here f
  refine ⟨kept.layout sound.toLayout, sound.balance (fun g c' opened' => ?_) (fun j count' kf' there => ?_)
    fun p name j => kept.lists.mp⟩
  · by_cases isFile : c'.ino = i
    · exact ⟨count + 1, kf, isFile ▸ own⟩
    · have other : g ≠ f := by
        rintro rfl
        rw [opened] at opened'
        cases opened'
        exact isFile rfl
      rw [files, update_of_ne other] at opened'
      obtain ⟨count', kf', there⟩ := sound.live g c' opened'
      exact ⟨count', kf', (rest _ isFile).trans there⟩
  · by_cases isFile : j = i
    · subst isFile
      rw [own] at there
      cases there
      exact ⟨count, kf, here, by omega⟩
    · exact ⟨count', kf', (rest j isFile).symm.trans there, by rw [same j isFile]⟩

theorem truncate_scribbled : Scribbled fs (pushSize fs i count kf 0) i kf (fun _ => False) True :=
  scribbled_push here (fun _ => rfl) (fun _ _ => rfl) (Nat.zero_le _)

theorem Sound.open {p : Fin n} {trunc : Bool} {opening : Opening m} (sound : Sound fs) (listed : Lists fs p name i)
    (granted : opening.grantable fs = true) : Sound (sysOpen fs i count kf trunc opening) := by
  have spared : Spared fs i kf (fun _ => False) True := .linked listed fun _ => False.elim
  have truncated := sound.scribble (truncate_scribbled here) spared
  cases opening with
  | noMemory => exact sound
  | noDescriptor =>
    cases trunc with
    | false => exact sound
    | true => exact truncated
  | file f =>
    have free : fs.files f = none := Option.isNone_iff_eq_none.mp granted
    cases trunc with
    | false => exact sound.hold here free
    | true => exact truncated.hold (update_self i _ fs.inodes) free

end

theorem vfsWalk_listed {at_ : Fin n} (sound : Layout fs) (found : vfsWalk fs at_ path = some i) :
    i = at_ ∨ ∃ p name, Lists fs p name i := by
  induction path generalizing at_ with
  | nil =>
    cases found
    exact .inl rfl
  | cons first rest ih =>
    rw [vfsWalk] at found
    split at found
    next dir =>
      split at found
      · cases found
      next child there =>
        cases ih found with
        | inl here =>
          subst here
          obtain ⟨rfl, _⟩ := sound.single _ _ _ _ dir
          exact .inr ⟨at_, first, _, _, dir, findChild_mem there⟩
        | inr listed => exact .inr listed
    · cases found

theorem vfsLookup_listed (sound : Layout fs) (found : vfsLookup fs path = some i)
    (here : fs.inodes i = some ⟨count, .reg kf⟩) : ∃ p name, Lists fs p name i := by
  cases vfsWalk_listed sound found with
  | inl root =>
    obtain ⟨children, dir⟩ := sound.root
    rw [IsDir, ← root, here] at dir
    cases dir
  | inr listed => exact listed

theorem parentDir_table (sound : Layout fs) (found : parentDir fs path name = some (d, block)) :
    name.bytes ≠ [] ∧ Table fs d block := by
  obtain ⟨text, found⟩ := Option.ite_none_left_eq_some.mp found
  split at found
  · cases found
  · split at found
    next dir =>
      cases found
      obtain ⟨rfl, _⟩ := sound.single _ _ _ _ dir
      exact ⟨text, _, dir⟩
    · cases found

end Files

section Runs

section

variable (fs)

-- Some directory lists the inode.
def linked (i : Fin n) : Bool :=
  (List.finRange n).any fun d =>
    match fs.inodes d with
    | some ⟨_, .dir _ children⟩ => children.any fun child => child.2 = i
    | _ => false

def isTable (b : Nat) : Bool :=
  (List.finRange n).any fun d =>
    match fs.inodes d with
    | some ⟨_, .dir block _⟩ => block = b
    | _ => false

-- The entry of the file has no owner: its block is free, or the slot in a directory is.
def slotFree (kf : KfsFile) : Prop :=
  fs.bitmap kf.dirBlock = false ∨ isTable fs kf.dirBlock ∧ (dirent (fs.disk kf.dirBlock) kf.direntIdx).used = false

instance (kf : KfsFile) : Decidable (slotFree fs kf) := inferInstanceAs (Decidable (_ ∨ _))

-- A write through a file that is no longer linked finds its blocks and its slot still free.
def unreused (c : Cursor n) (kf : KfsFile) (len : Nat) : Prop :=
  (∀ b ∈ touchedBlocks kf c.pos len, fs.bitmap b = false) ∧
    (c.pos < kf.allocBlocks * 512 ∧ kf.sizeBytes < c.pos + len → slotFree fs kf)

instance (c : Cursor n) (kf : KfsFile) (len : Nat) : Decidable (unreused fs c kf len) :=
  inferInstanceAs (Decidable (_ ∧ _))

def writesApart : Op n m → Prop
  | .write f buf =>
    match fdGet fs f with
    | none => True
    | some (c, _, kf) => linked fs c.ino ∨ unreused fs c kf (min (kf.allocBlocks * 512 - c.pos) buf.length)
  | _ => True

instance (o : Op n m) : Decidable (writesApart fs o) := by
  unfold writesApart
  split
  · split
    · exact instDecidableTrue
    · exact instDecidableOr
  · exact instDecidableTrue

end

theorem linked_lists (sound : Layout fs) (here : linked fs i = true) : ∃ p name, Lists fs p name i := by
  obtain ⟨d, _, there⟩ := List.any_eq_true.mp here
  split at there
  next dir =>
    obtain ⟨child, inside, same⟩ := List.any_eq_true.mp there
    obtain rfl : child.2 = i := by simpa using same
    obtain ⟨rfl, _⟩ := sound.single _ _ _ _ dir
    exact ⟨d, child.1, _, _, dir, inside⟩
  · cases there

theorem isTable_table (sound : Layout fs) (here : isTable fs b = true) : ∃ t, Table fs t b := by
  obtain ⟨d, _, there⟩ := List.any_eq_true.mp here
  split at there
  next dir =>
    obtain rfl := of_decide_eq_true there
    obtain ⟨rfl, _⟩ := sound.single _ _ _ _ dir
    exact ⟨d, _, dir⟩
  · cases there

theorem write_spared {f : Fin m} {c : Cursor n} {kf : KfsFile} {count : Nat} {buf : List Byte} (sound : Layout fs)
    (found : fdGet fs f = some (c, count, kf)) (allowed : writesApart fs (.write f buf)) :
    Spared fs c.ino kf (· ∈ touchedBlocks kf c.pos (min (kf.allocBlocks * 512 - c.pos) buf.length))
      (c.pos < kf.allocBlocks * 512 ∧ kf.sizeBytes < c.pos + min (kf.allocBlocks * 512 - c.pos) buf.length) := by
  rw [writesApart, found] at allowed
  cases allowed with
  | inl here =>
    obtain ⟨p, name, listed⟩ := linked_lists sound here
    refine .linked listed ?_
    intro b touched
    obtain ⟨k, low, high, rfl⟩ := mem_touchedBlocks.mp touched
    omega
  | inr free =>
    refine .free free.1 fun grows => ?_
    cases free.2 grows with
    | inl clear => exact .inl clear
    | inr empty => exact .inr ⟨isTable_table sound empty.1, empty.2⟩

/-- What a call that finds its file or directory does. -/
inductive Effect (fs : Mount n m) : Op n m → Mount n m → Prop where
  | same {o : Op n m} : Effect fs o fs
  | creat {dir : List Name} {base : Name} {made : Made n} {d : Fin n} {block : Nat} :
      parentDir fs dir base = some (d, block) → grantable fs made = true →
      Effect fs (.creat dir base made) (kfsDirCreat fs d block base made)
  | mkdir {dir : List Name} {base : Name} {made : Made n} {d : Fin n} {block : Nat} :
      parentDir fs dir base = some (d, block) → grantable fs made = true →
      Effect fs (.mkdir dir base made) (kfsDirMkdir fs d block base made)
  | unlink {dir : List Name} {base : Name} {d : Fin n} {block : Nat} {fs₁ : Mount n m} :
      parentDir fs dir base = some (d, block) → kfsDirUnlink fs block base = some fs₁ →
      Effect fs (.unlink dir base) (vfsRemoveChild fs₁ d base)
  | rmdir {dir : List Name} {base : Name} {d : Fin n} {block : Nat} {fs₁ : Mount n m} :
      parentDir fs dir base = some (d, block) → kfsDirRmdir fs block base = some fs₁ →
      Effect fs (.rmdir dir base) (vfsRemoveChild fs₁ d base)
  | open {path : List Name} {trunc : Bool} {opening : Opening m} {i : Fin n} {count : Nat} {kf : KfsFile} :
      opening.grantable fs = true → vfsLookup fs path = some i → fs.inodes i = some ⟨count, .reg kf⟩ →
      Effect fs (.open path trunc opening) (sysOpen fs i count kf trunc opening)
  | read {f : Fin m} {len : Nat} {c : Cursor n} {count : Nat} {kf : KfsFile} :
      fdGet fs f = some (c, count, kf) → Effect fs (.read f len) (regfileRead fs f c kf len).2
  | write {f : Fin m} {buf : List Byte} {c : Cursor n} {count : Nat} {kf : KfsFile} :
      fdGet fs f = some (c, count, kf) → Effect fs (.write f buf) (regfileWrite fs f c count kf buf)
  | seek {f : Fin m} {offset : Int} {whence : Whence} {c : Cursor n} {count : Nat} {kf : KfsFile} :
      fdGet fs f = some (c, count, kf) → Effect fs (.seek f offset whence) (regfileSeek fs f c kf offset whence)
  | close {f : Fin m} {c : Cursor n} : fs.files f = some c → Effect fs (.close f) (sysClose fs f c)

theorem step_effect {o : Op n m} (made : step fs o = some fs') : Effect fs o fs' := by
  cases o with
  | creat dir base made | mkdir dir base made =>
    rw [step] at made
    split at made
    next granted =>
      split at made
      next => cases made; exact .same
      next found => cases made; constructor <;> assumption
    next => cases made
  | unlink dir base | rmdir dir base =>
    rw [step] at made
    split at made
    next => cases made; exact .same
    next found =>
      split at made
      next => cases made; exact .same
      next unlinked => cases made; constructor <;> assumption
  | «open» path trunc opening =>
    rw [step] at made
    split at made
    next granted =>
      split at made
      next => cases made; exact .same
      next found =>
        split at made
        next => cases made; exact .same
        next reg => cases made; exact .open granted found (regOf_some reg)
    next => cases made
  | read f len | write f buf | seek f offset whence | close f =>
    rw [step] at made
    split at made
    next => cases made; exact .same
    next found => cases made; constructor; assumption

theorem Sound.step {o : Op n m} (sound : Sound fs) (allowed : writesApart fs o) (made : step fs o = some fs') :
    Sound fs' := by
  cases step_effect made with
  | same => exact sound
  | creat found granted =>
    obtain ⟨text, table⟩ := parentDir_table sound.toLayout found
    exact sound.creat table text granted
  | mkdir found granted =>
    obtain ⟨text, table⟩ := parentDir_table sound.toLayout found
    exact sound.mkdir table text granted
  | unlink found unlinked =>
    obtain ⟨_, table⟩ := parentDir_table sound.toLayout found
    obtain ⟨slot, e, removed, _⟩ := kfsDirUnlink_removed sound.toLayout table unlinked
    exact sound.remove removed table
  | rmdir found unlinked =>
    obtain ⟨_, table⟩ := parentDir_table sound.toLayout found
    obtain ⟨slot, e, ⟨removed, _⟩, _⟩ := kfsDirRmdir_removed sound.toLayout table unlinked
    exact sound.remove removed table
  | «open» granted found here =>
    obtain ⟨p, name, listed⟩ := vfsLookup_listed sound.toLayout found here
    exact sound.open here listed granted
  | read found =>
    obtain ⟨opened, here⟩ := fdGet_some found
    exact sound.read opened here _
  | write found =>
    obtain ⟨opened, here⟩ := fdGet_some found
    exact sound.scribble (regfileWrite_scribbled opened here _) (write_spared sound.toLayout found allowed)
  | seek found =>
    obtain ⟨opened, here⟩ := fdGet_some found
    exact sound.seek opened here _ _
  | close opened => exact sound.close opened

end Runs

end Kappara.Fs
