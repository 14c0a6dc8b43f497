import Kappara.Fs.Image

/-! Who owns which block, over whole runs.

While memory lasts and no open file is unlinked, the tables on the disk and the
tree in memory say the same, and every allocated block has an owner in both. -/

set_option autoImplicit false

namespace Kappara.Fs

open Function (update update_cases update_self)

variable {n m : Nat} {fs fs' : Mount n m}

/-- The inodes that many directories below the mountpoint. -/
inductive Rooted (fs : Mount n m) : Nat → Fin n → Prop where
  | root : Rooted fs 0 fs.mountpoint
  | child {level : Nat} {d i : Fin n} {name : Name} : Rooted fs level d → Lists fs d name i → Rooted fs (level + 1) i

theorem Rooted.mono (mount : fs'.mountpoint = fs.mountpoint)
    (lists : ∀ p name i, Lists fs p name i → Lists fs' p name i)
    {level : Nat} {i : Fin n} (rooted : Rooted fs level i) : Rooted fs' level i := by
  induction rooted with
  | root =>
    rw [← mount]
    exact .root
  | child _ listed ih => exact .child ih (lists _ _ _ listed)

def hasMagic (disk : Nat → Block) : Prop := Records.word32 (disk 0 0) (disk 0 1) (disk 0 2) (disk 0 3) = kfsMagic

/-- The tree in memory is the one on the disk, and an allocated block is reserved, lost from the
start, or in the run of an entry. -/
structure Exact (lost : Nat → Prop) (fs : Mount n m) : Prop where
  listed : ∀ d block slot e, Entry fs d block slot e → ∃ name i, Lists fs d name i ∧ e.named name = true
  sized : ∀ p name i count kf, Lists fs p name i → fs.inodes i = some ⟨count, .reg kf⟩ →
    (dirent (fs.disk kf.dirBlock) kf.direntIdx).sizeBytes.toNat = kf.sizeBytes
  held : ∀ f c, fs.files f = some c → ∃ p name, Lists fs p name c.ino
  rooted : ∀ d block, Table fs d block → ∃ level, Rooted fs level d
  inside : ∀ d block slot e b, Entry fs d block slot e → e.covers b → b < min fs.nblocks 4096
  reserved : ∀ b < 3, fs.bitmap b = true ∧ b < fs.nblocks
  owned : ∀ b, fs.bitmap b = true → b < 3 ∨ lost b ∨ ∃ d block slot e, Entry fs d block slot e ∧ e.covers b
  saved : ∀ b < 4096, bitmapOf (fs.disk 1) b = fs.bitmap b
  magic : hasMagic fs.disk

section Steps

variable {lost : Nat → Prop} (whole : Exact lost fs)
include whole

theorem Exact.keep (kept : Layout.Kept fs fs') (device : fs'.nblocks = fs.nblocks)
    (low : ∀ b < 2, fs'.disk b = fs.disk b) (opened : ∀ f c, fs'.files f = some c → ∃ p name, Lists fs p name c.ino)
    (sizes : ∀ p name i count kf, Lists fs p name i → fs'.inodes i = some ⟨count, .reg kf⟩ →
      (dirent (fs'.disk kf.dirBlock) kf.direntIdx).sizeBytes.toNat = kf.sizeBytes) : Exact lost fs' where
  listed d block slot e' entry := by
    obtain ⟨e, before, same⟩ := kept.entry entry
    obtain ⟨name, i, listed, named⟩ := whole.listed d block slot e before
    exact ⟨name, i, kept.lists.mpr listed, by rw [same.named, named]⟩
  sized p name i count kf listed := sizes p name i count kf (kept.lists.mp listed)
  held f c now := by
    obtain ⟨p, name, listed⟩ := opened f c now
    exact ⟨p, name, kept.lists.mpr listed⟩
  rooted d block table := by
    obtain ⟨level, rooted⟩ := whole.rooted d block (kept.table.mp table)
    exact ⟨level, rooted.mono kept.mount fun _ _ _ => kept.lists.mpr⟩
  inside d block slot e' b entry covered := by
    obtain ⟨e, before, same⟩ := kept.entry entry
    rw [device]
    exact whole.inside d block slot e b before (same.covers.mp covered)
  reserved b below := by
    rw [kept.bits, device]
    exact whole.reserved b below
  owned b taken := by
    rw [kept.bits] at taken
    refine (whole.owned b taken).imp_right (Or.imp_right ?_)
    rintro ⟨d, block, slot, e, entry, covered⟩
    obtain ⟨e', now, same⟩ := kept.entry_back entry
    exact ⟨d, block, slot, e', now, same.covers.mpr covered⟩
  saved b below := by
    rw [low 1 (by decide), kept.bits]
    exact whole.saved b below
  magic := by
    rw [hasMagic, low 0 (by decide)]
    exact whole.magic

section Create

variable {fs₁ : Mount n m} {d x : Fin n} {block start : Nat} {slot : Fin 26} {name : Name} {isdir : Bool} {e : Dirent}
  {children : List (Name × Fin n)} {body : Body n} (sound : Sound fs)
  (claimed : Claimed fs fs₁ d block slot name isdir start e)
  (attached : Layout.Attached fs₁ fs' d block children name x body) (fits : Layout.Fits fs₁ block slot e body)
include sound claimed attached fits

theorem Exact.create (device : fs'.nblocks = fs.nblocks) (files : fs'.files = fs.files) (empty : e.sizeBytes = 0)
    (new : ∀ kf, body = .reg kf → kf.sizeBytes = 0) (room : start + (if isdir then 1 else 64) ≤ min fs.nblocks 4096)
    (super : fs'.disk 0 = fs.disk 0) (written : fs'.disk 1 = bitmapBlock fs'.bitmap) : Exact lost fs' := by
  have lists : ∀ p other i, Lists fs p other i → Lists fs' p other i := fun p other i before =>
    attached.lists ((Layout.lists_congr claimed.inodes).mpr before)
  have here : Lists fs' d name x := ⟨_, _, attached.listing, List.mem_cons_self⟩
  have entries : ∀ t b s e', Entry fs t b s e' → Entry fs' t b s e' := fun t b s e' before =>
    attached.entry (claimed.entry_back sound.toLayout before)
  have cases_ : ∀ t b s e', Entry fs' t b s e' → t = d ∧ e' = e ∨ Entry fs t b s e' := by
    intro t b s e' entry
    refine (claimed.entry sound.toLayout (attached.entry_back fits entry)).imp_left ?_
    rintro ⟨rfl, _, _, rfl⟩
    exact ⟨rfl, rfl⟩
  refine ⟨?_, ?_, ?_, ?_, ?_, ?_, ?_, ?_, ?_⟩
  · intro t b s e' entry
    cases cases_ t b s e' entry with
    | inl now =>
      obtain ⟨rfl, rfl⟩ := now
      exact ⟨name, x, here, claimed.named⟩
    | inr before =>
      obtain ⟨other, i, listed, named⟩ := whole.listed t b s e' before
      exact ⟨other, i, lists _ _ _ listed, named⟩
  · intro p other i count kf listed reg
    cases attached.lists_back fits listed with
    | inl before =>
      have before := (Layout.lists_congr claimed.inodes).mp before
      obtain ⟨b, listing, dir, _⟩ := id before
      obtain ⟨_, _, _, _, node⟩ := sound.placed p b other i ⟨_, dir⟩ before
      have same : fs.inodes i = some ⟨count, .reg kf⟩ := by
        have old : i ≠ x := by
          rintro rfl
          have fresh := attached.fresh
          rw [claimed.inodes] at fresh
          cases node with
          | reg at_ | dir at_ => simp [at_] at fresh
        rw [← claimed.inodes, ← attached.relisted.reg old, reg]
      obtain ⟨e', entry, _⟩ := sound.entry_of before same
      rw [(entries _ _ _ _ entry).here, ← entry.here]
      exact whole.sized p other i count kf before same
    | inr now =>
      obtain ⟨rfl, rfl, rfl⟩ := now
      rw [attached.new] at reg
      cases reg
      cases fits with
      | reg _ _ dirBlock idx =>
        rw [dirBlock, idx, attached.disk, claimed.new.here, empty, new kf rfl]
        rfl
  · intro f c opened
    rw [files] at opened
    obtain ⟨p, other, listed⟩ := whole.held f c opened
    exact ⟨p, other, lists _ _ _ listed⟩
  · intro t b table
    have mount : fs'.mountpoint = fs.mountpoint := attached.mount.trans claimed.mount
    cases attached.table_back table with
    | inl old =>
      obtain ⟨level, rooted⟩ := whole.rooted t b ((Layout.table_congr claimed.inodes).mp old)
      exact ⟨level, rooted.mono mount lists⟩
    | inr now =>
      obtain ⟨rfl, _⟩ := now
      obtain ⟨level, rooted⟩ := whole.rooted d block claimed.table
      exact ⟨level + 1, .child (rooted.mono mount lists) here⟩
  · intro t b s e' k entry covered
    rw [device]
    cases cases_ t b s e' entry with
    | inl now =>
      obtain ⟨_, rfl⟩ := now
      rw [Dirent.covers, claimed.isdir_eq, claimed.start_eq] at covered
      omega
    | inr before => exact whole.inside t b s e' k before covered
  · intro b below
    rw [attached.bits, device]
    exact (whole.reserved b below).imp_left fun taken => (claimed.bits b).mpr (.inr taken)
  · intro b taken
    rw [attached.bits] at taken
    cases (claimed.bits b).mp taken with
    | inl covered => exact .inr (.inr ⟨d, block, slot, e, attached.entry claimed.new, covered⟩)
    | inr old =>
      refine (whole.owned b old).imp_right (Or.imp_right ?_)
      rintro ⟨t, b', s, e', entry, covered⟩
      exact ⟨t, b', s, e', entries _ _ _ _ entry, covered⟩
  · intro b below
    rw [written, bitmapOf_bitmapBlock _ below]
  · rw [hasMagic, super]
    exact whole.magic

end Create

theorem Exact.remove {fs₁ : Mount n m} {d : Fin n} {block : Nat} {slot : Fin 26} {name : Name} {e : Dirent}
    (sound : Sound fs) (table : Table fs d block) (removed : Removed fs fs₁ block name slot e)
    (freed : fs₁ = kfsFreeBlocks (clearDirent fs block slot) e.start (if e.isdir then 1 else 64))
    (unopened : ∀ x f c, Lists fs d name x → fs.files f = some c → c.ino ≠ x) :
    Exact lost (vfsRemoveChild fs₁ d name) := by
  obtain ⟨children, dir⟩ := id table
  have entry : Entry fs d block slot e := ⟨table, removed.here, removed.used⟩
  obtain ⟨device, super, written⟩ : fs₁.nblocks = fs.nblocks ∧ fs₁.disk 0 = fs.disk 0 ∧
      fs₁.disk 1 = bitmapBlock fs₁.bitmap := by
    have behind := (sound.dir_block table).1
    simp [freed, kfsFreeBlocks, kfsBitmapSave, bdWriteBlock, clearDirent, show 0 ≠ block by omega]
  obtain ⟨x, found⟩ : ∃ x, findChild children name = some x := by
    obtain ⟨other, x, ⟨b, children', dir', inside⟩, named⟩ := whole.listed d block slot e entry
    obtain rfl := Dirent.named_unique named removed.named
    rw [IsDir] at dir dir'
    rw [dir] at dir'
    cases dir'
    exact Option.ne_none_iff_exists'.mp fun missing => findChild_none missing x inside
  have detached := removed.detached sound.toLayout dir found
  obtain ⟨sound', cleared⟩ := removed.halves sound table
  obtain ⟨disk, bits, files, mount, -⟩ := vfsRemoveChild_rest fs d name
  obtain ⟨disk', bits', files', mount', size⟩ := vfsRemoveChild_rest fs₁ d name
  have back : ∀ t b s e', Entry (vfsRemoveChild fs₁ d name) t b s e' → Entry fs t b s e' ∧ ¬(t = d ∧ s = slot) := by
    intro t b s e' now
    obtain ⟨before, other⟩ := cleared.entry' sound'.toLayout now
    exact ⟨detached.entry_back sound.toLayout before, other⟩
  have forth : ∀ t b s e', Entry fs t b s e' → ¬(t = d ∧ s = slot) → Entry (vfsRemoveChild fs₁ d name) t b s e' := by
    intro t b s e' before other
    have bare : t ≠ x := by
      rintro rfl
      have used := before.used
      rw [← before.here, detached.bare b before.table s] at used
      cases used
    exact cleared.entry_back sound'.toLayout ⟨(detached.relisted.table bare).mpr before.table, by rw [disk,
      before.here], before.used⟩ other
  have lists : ∀ p other i, Lists fs p other i → i ≠ x → Lists (vfsRemoveChild fs₁ d name) p other i :=
    fun p other i before kept =>
    (Layout.lists_congr cleared.inodes).mpr (detached.lists sound.toLayout before kept)
  have gone : ∀ p other i, Lists fs p other i → i = x → p = d ∧ other = name := by
    rintro p other i listed rfl
    exact sound.listed_once listed detached.listed
  have sameSlot : ∀ s e', Entry fs d block s e' → e'.named name = true → s = slot := fun s e' there named =>
    sound.names _ _ _ _ _ _ name there entry named removed.named
  refine ⟨?_, ?_, ?_, ?_, ?_, ?_, ?_, ?_, ?_⟩
  · intro t b s e' now
    obtain ⟨before, other⟩ := back t b s e' now
    obtain ⟨name', i, listed, named⟩ := whole.listed t b s e' before
    refine ⟨name', i, lists _ _ _ listed ?_, named⟩
    intro same
    obtain ⟨rfl, rfl⟩ := gone _ _ _ listed same
    obtain rfl := Table.unique before.table table
    exact other ⟨rfl, sameSlot s e' before named⟩
  · intro p other i count kf listed reg
    obtain ⟨before, kept⟩ := detached.lists_back sound.toLayout ((Layout.lists_congr cleared.inodes).mp listed)
    have same : fs.inodes i = some ⟨count, .reg kf⟩ := by
      rw [← detached.relisted.reg kept, ← cleared.inodes, reg]
    obtain ⟨e', there, named', _⟩ := sound.entry_of before same
    have now := forth _ _ _ _ there (by
      rintro ⟨sameDir, rfl⟩
      exact kept (sound.entry_injective before detached.listed there entry sameDir named' removed.named))
    rw [now.here, ← there.here]
    exact whole.sized p other i count kf before same
  · intro f c opened
    rw [files', removed.files] at opened
    obtain ⟨p, other, listed⟩ := whole.held f c opened
    exact ⟨p, other, lists _ _ _ listed (unopened x f c detached.listed opened)⟩
  · intro t b now
    obtain ⟨before, kept⟩ := detached.table_back sound.toLayout ((Layout.table_congr cleared.inodes).mp now)
    obtain ⟨level, rooted⟩ := whole.rooted t b before
    refine ⟨level, ?_⟩
    clear before now
    -- the directory that goes lists nothing, so no path leads through it
    induction rooted with
    | root =>
      rw [show fs.mountpoint = (vfsRemoveChild fs₁ d name).mountpoint by rw [mount', removed.mount]]
      exact .root
    | child _ listed ih =>
      refine .child (ih ?_) (lists _ _ _ listed kept)
      rintro rfl
      obtain ⟨b, _, dir', _⟩ := id listed
      exact sound.bare_lists ⟨_, dir'⟩ (detached.bare b ⟨_, dir'⟩) listed
  · intro t b s e' k now covered
    rw [size, device]
    exact whole.inside t b s e' k (back _ _ _ _ now).1 covered
  · intro b below
    rw [bits', removed.bits, size, device]
    refine (whole.reserved b below).imp_left fun taken => ⟨?_, taken⟩
    intro covered
    have := (sound.owned _ _ _ _ b entry covered).1
    omega
  · intro b taken
    rw [bits', removed.bits] at taken
    refine (whole.owned b taken.2).imp_right (Or.imp_right ?_)
    rintro ⟨t, b', s, e', there, covered⟩
    refine ⟨t, b', s, e', forth _ _ _ _ there ?_, covered⟩
    rintro ⟨rfl, rfl⟩
    obtain rfl := Table.unique there.table table
    exact taken.1 (by rwa [← entry.here, there.here])
  · intro b below
    rw [disk', bits', written, bitmapOf_bitmapBlock _ below]
  · rw [hasMagic, disk', super]
    exact whole.magic

theorem Exact.scribble {i p : Fin n} {name : Name} {kf : KfsFile} {touched : Nat → Prop} {push : Prop}
    (sound : Sound fs) (scribbled : Scribbled fs fs' i kf touched push) (listed : Lists fs p name i)
    (own : ∀ b, touched b → kf.startBlock ≤ b ∧ b < kf.startBlock + kf.allocBlocks) (device : fs'.nblocks = fs.nblocks)
    (size : push → ∃ count size table, fs'.inodes i = some ⟨count, .reg { kf with sizeBytes := size }⟩ ∧
      fs'.disk kf.dirBlock = setSize table kf.direntIdx size ∧ size < 2 ^ 32)
    (same : ¬push → fs'.inodes i = fs.inodes i) : Exact lost fs' := by
  have spared : Spared fs i kf touched push := .linked listed own
  obtain ⟨count, _, here, _⟩ := scribbled.own
  obtain ⟨e, entry, named, file, start, alloc, _⟩ := sound.entry_of listed here
  refine whole.keep (scribbled.kept sound.toLayout spared) device ?_ ?_ ?_
  · intro b low
    apply scribbled.plain
    · intro hit
      have run := own b hit
      rw [alloc, start] at run
      have := (sound.owned _ _ _ _ b entry (by rw [Dirent.covers, file]; exact run)).1
      omega
    · rintro ⟨_, rfl⟩
      have := (sound.dir_block entry.table).1
      omega
  · intro f c opened
    have ino := scribbled.files f
    rw [opened, Option.map_some] at ino
    obtain ⟨c', before, sameIno⟩ := Option.map_eq_some_iff.mp ino.symm
    rw [← sameIno]
    exact whole.held f c' before
  · intro q other j count' kf' before reg
    by_cases own' : j = i
    · subst own'
      by_cases pushes : push
      · obtain ⟨count'', size', table, now, written, bound⟩ := size pushes
        rw [now] at reg
        cases reg
        rw [written, dirent_setSize_self, BitVec.toNat_ofNat, Nat.mod_eq_of_lt bound]
      · rw [same pushes] at reg
        rw [here] at reg
        cases reg
        rw [scribbled.plain _ (scribbled.table_spared sound.toLayout spared entry.table) (fun both => pushes both.1)]
        exact whole.sized _ _ _ _ _ listed here
    · rw [scribbled.others j own'] at reg
      obtain ⟨e', entry', named', _⟩ := sound.entry_of before reg
      rw [scribbled.dirent_spared sound.toLayout spared before own' entry' named', ← entry'.here]
      exact whole.sized _ _ _ _ _ before reg

end Steps

section Paths

variable {d i : Fin n} {name : Name}

theorem findChild_of_mem {children : List (Name × Fin n)} (names : (children.map (·.1)).Nodup)
    (inside : (name, i) ∈ children) : findChild children name = some i := by
  cases found : findChild children name with
  | none => exact absurd inside (findChild_none found i)
  | some j =>
    exact congrArg (some ∘ Prod.snd) (List.inj_on_of_nodup_map names (findChild_mem found) inside rfl)

theorem vfsWalk_snoc (sound : Layout fs) {at_ : Fin n} {path : List Name} (found : vfsWalk fs at_ path = some d)
    (listed : Lists fs d name i) : vfsWalk fs at_ (path ++ [name]) = some i := by
  induction path generalizing at_ with
  | nil =>
    cases found
    obtain ⟨block, children, dir, inside⟩ := listed
    rw [List.nil_append, vfsWalk, dir]
    dsimp only
    rw [findChild_of_mem (sound.single _ _ _ _ dir).2.1 inside]
    rfl
  | cons first rest ih =>
    rw [vfsWalk] at found
    rw [List.cons_append, vfsWalk]
    split at found
    next =>
      split at found
      · cases found
      · exact ih found
    · cases found

theorem Rooted.path (sound : Layout fs) {level : Nat} (rooted : Rooted fs level i) :
    ∃ path, vfsLookup fs path = some i := by
  induction rooted with
  | root => exact ⟨[], rfl⟩
  | child _ listed ih =>
    obtain ⟨path, found⟩ := ih
    exact ⟨_, vfsWalk_snoc sound found listed⟩

theorem parentDir_lookup {dir : List Name} {block : Nat} (found : parentDir fs dir name = some (d, block)) :
    vfsLookup fs dir = some d := by
  obtain ⟨_, found⟩ := Option.ite_none_left_eq_some.mp found
  split at found
  · cases found
  next there =>
    split at found
    next =>
      cases found
      exact there
    · cases found

end Paths

section Calls

variable {lost : Nat → Prop} {d i x : Fin n} {block count start : Nat} {slot : Fin 26} {name : Name} {kf : KfsFile}
  {f : Fin m} {c : Cursor n}

variable (whole : Exact lost fs)
include whole

theorem Exact.hold {p : Fin n} (listed : Lists fs p name i) (here : fs.inodes i = some ⟨count, .reg kf⟩) :
    Exact lost (Fs.held fs f i) := by
  refine whole.keep (held_kept here f) (by rw [held_eq here]) (fun b _ => by rw [held_eq here]) ?_ ?_
  · intro g c' opened
    rw [held_eq here] at opened
    rcases update_cases opened with ⟨-, ⟨⟩⟩ | ⟨-, opened⟩
    · exact ⟨p, name, listed⟩
    · exact whole.held g c' opened
  · intro q other j count' kf' listed' reg
    have disk : (Fs.held fs f i).disk = fs.disk := by rw [held_eq here]
    rw [disk]
    by_cases own : j = i
    · subst own
      rw [held_own here] at reg
      cases reg
      exact whole.sized _ _ _ _ _ listed' here
    · rw [held_rest here f own] at reg
      exact whole.sized _ _ _ _ _ listed' reg

variable (sound : Sound fs)
include sound

theorem Exact.make (isdir : Bool) {fs₁ : Mount n m} {body : Body n} (table : Table fs d block) (text : name.bytes ≠ [])
    (made : kfsDirEnter fs block name (if isdir then 1 else 64) (if isdir then dirBit else 0) = some (slot, start, fs₁))
    (fits : ∀ e, Claimed fs fs₁ d block slot name isdir start e → Layout.Fits fs₁ block slot e body)
    (new : ∀ kf, body = .reg kf → kf.sizeBytes = 0) (fresh : fs.inodes x = none) :
    Exact lost (addChild fs₁ d name body (.both x)) := by
  obtain ⟨⟨e, claimed⟩, device, room, super, written, size⟩ := kfsDirEnter_claimed isdir table sound.toLayout text made
  obtain ⟨children, dir⟩ := claimed.table
  have dir' : IsDir fs₁ d block children := by rwa [IsDir, claimed.inodes]
  have fresh' : fs₁.inodes x = none := by rw [claimed.inodes, fresh]
  have attached := addChild_attached name body dir' fresh'
  refine whole.create sound claimed attached (fits e claimed) ?_ ?_ ?_ new room ?_ ?_
  · rw [(addChild_rest ..).2.2, device]
  · rw [(addChild_rest ..).2.1, claimed.files]
  · rw [← claimed.new.here, size]
  · rw [attached.disk, super]
  · rw [attached.disk, attached.bits, written]

theorem Exact.move (opened : fs.files f = some c) (here : fs.inodes c.ino = some ⟨count, .reg kf⟩) (pos : Nat) :
    Exact lost { fs with files := update fs.files f (some { c with pos }) } := by
  obtain ⟨p, name, listed⟩ := whole.held f c opened
  exact whole.scribble sound (scribbled_disk here (moved_inos opened pos) fun _ (_ : ¬False) => rfl) listed
    (fun _ => False.elim) rfl False.elim fun _ => rfl

theorem Exact.truncate {p : Fin n} (listed : Lists fs p name i) (here : fs.inodes i = some ⟨count, .reg kf⟩) :
    Exact lost (pushSize fs i count kf 0) := by
  refine whole.scribble sound (truncate_scribbled here) listed (fun _ => False.elim) rfl ?_ fun off =>
    absurd trivial off
  exact fun _ => ⟨count, 0, fs.disk kf.dirBlock, update_self .., update_self .., by decide⟩

theorem Exact.close (opened : fs.files f = some c) : Exact lost (sysClose fs f c) := by
  obtain ⟨count, kf, here⟩ := sound.live f c opened
  refine whole.keep (close_kept here sound.toRefs opened) (by simp [sysClose]) (fun b _ => by simp [sysClose]) ?_ ?_
  · intro g c' opened'
    simp only [sysClose, vfsIput_files] at opened'
    rcases update_cases opened' with ⟨-, ⟨⟩⟩ | ⟨-, opened'⟩
    exact whole.held g c' opened'
  · intro p other j count' kf' listed reg
    have disk : (sysClose fs f c).disk = fs.disk := by simp [sysClose]
    rw [disk]
    cases close_reg here reg with
    | inl old => exact whole.sized _ _ _ _ _ listed old.2
    | inr own =>
      obtain ⟨rfl, _, body⟩ := own
      cases body
      exact whole.sized _ _ _ _ _ listed here

theorem Exact.write (opened : fs.files f = some c) (here : fs.inodes c.ino = some ⟨count, .reg kf⟩) (buf : List Byte) :
    Exact lost (regfileWrite fs f c count kf buf) := by
  obtain ⟨p, name, listed⟩ := whole.held f c opened
  obtain ⟨_, _, _, _, _, alloc, _⟩ := sound.entry_of listed here
  refine whole.scribble sound (regfileWrite_scribbled opened here buf) listed ?_ ?_ ?_ ?_
  · intro b touched
    obtain ⟨k, low, high, rfl⟩ := mem_touchedBlocks.mp touched
    omega
  · rw [regfileWrite]
    split
    · rfl
    · dsimp only
      split <;> rfl
  · rintro ⟨room, grows⟩
    rw [← List.length_take] at grows
    rw [regfileWrite, if_neg (by omega)]
    rw [if_pos grows]
    refine ⟨count, _, _, update_self .., update_self .., ?_⟩
    rw [List.length_take]
    omega
  · intro stays
    rw [regfileWrite]
    split
    · rfl
    next room =>
      rw [if_neg]
      rw [List.length_take]
      exact fun grows => stays ⟨by omega, grows⟩

end Calls

section Runs

-- The allocator has memory for every creat and mkdir, and no open file is unlinked.
def orderly (fs : Mount n m) : Op n m → Prop
  | .creat _ _ made => made.inode ≠ none
  | .mkdir _ _ made => made.inode ≠ none
  | .unlink dir base => ∀ f i, vfsLookup fs (dir ++ [base]) = some i → (fs.files f).map (·.ino) ≠ some i
  | _ => True

instance (fs : Mount n m) (o : Op n m) : Decidable (orderly fs o) :=
  match o with
  | .creat _ _ made => inferInstanceAs (Decidable (made.inode ≠ none))
  | .mkdir _ _ made => inferInstanceAs (Decidable (made.inode ≠ none))
  | .unlink dir base =>
    inferInstanceAs (Decidable (∀ f i, vfsLookup fs (dir ++ [base]) = some i → (fs.files f).map (·.ino) ≠ some i))
  | .rmdir _ _ | .open _ _ _ | .read _ _ | .write _ _ | .seek _ _ _ | .close _ => inferInstanceAs (Decidable True)

theorem Made.both_of_inode {made : Made n} (some : made.inode ≠ .none) : ∃ x, made = .both x := by
  cases made with
  | both x => exact ⟨x, rfl⟩
  | none | unnamed | bare => exact absurd rfl some

variable {lost : Nat → Prop} {o : Op n m}

theorem Exact.writesApart (whole : Exact lost fs) (o : Op n m) : writesApart fs o := by
  unfold Fs.writesApart
  split
  · split
    · trivial
    next c _ kf found =>
      obtain ⟨p, name, block, children, dir, inside⟩ := whole.held _ c (fdGet_some found).1
      refine .inl (List.any_eq_true.mpr ⟨p, List.mem_finRange p, ?_⟩)
      rw [IsDir] at dir
      rw [dir]
      exact List.any_eq_true.mpr ⟨_, inside, decide_eq_true rfl⟩
  · trivial

theorem Exact.step (whole : Exact lost fs) (sound : Sound fs) (allowed : orderly fs o) (made : step fs o = some fs') :
    Exact lost fs' := by
  cases step_effect made with
  | same => exact whole
  | @creat dir base got d block found granted =>
    obtain ⟨text, table⟩ := parentDir_table sound.toLayout found
    obtain ⟨x, rfl⟩ := Made.both_of_inode allowed
    rw [kfsDirCreat]
    split
    · exact whole
    next entered =>
      refine whole.make sound false table text entered (fun e claimed => claimed.fits_reg) ?_
        (Option.isNone_iff_eq_none.mp granted)
      intro kf body
      cases body
      rfl
  | @mkdir dir base got d block found granted =>
    obtain ⟨text, table⟩ := parentDir_table sound.toLayout found
    obtain ⟨x, rfl⟩ := Made.both_of_inode allowed
    rw [kfsDirMkdir]
    split
    · exact whole
    next entered =>
      refine whole.make sound true table text entered (fun e claimed => claimed.fits_dir sound.toLayout) ?_
        (Option.isNone_iff_eq_none.mp granted)
      intro kf body
      cases body
  | unlink found unlinked =>
    obtain ⟨_, table⟩ := parentDir_table sound.toLayout found
    obtain ⟨slot, e, removed, freed⟩ := kfsDirUnlink_removed sound.toLayout table unlinked
    refine whole.remove sound table removed freed ?_
    rintro x f c listed opened rfl
    exact allowed f c.ino (vfsWalk_snoc sound.toLayout (parentDir_lookup found) listed)
      (by rw [opened, Option.map_some])
  | @rmdir _ base d block _ found unlinked =>
    obtain ⟨_, table⟩ := parentDir_table sound.toLayout found
    obtain ⟨slot, e, ⟨removed, freed⟩, isdir⟩ := kfsDirRmdir_removed sound.toLayout table unlinked
    refine whole.remove sound table removed freed ?_
    -- what is open is a file, and the entry is that of a directory
    rintro x f c listed opened rfl
    obtain ⟨count, kf, here⟩ := sound.live f c opened
    obtain ⟨e', entry, named, file, _⟩ := sound.entry_of listed here
    obtain rfl := Table.unique entry.table table
    obtain rfl := sound.names _ _ _ _ _ _ base ⟨table, removed.here, removed.used⟩ entry removed.named named
    rw [← entry.here, removed.here, isdir] at file
    cases file
  | @«open» _ trunc opening i count kf granted found here =>
    obtain ⟨p, name, listed⟩ := vfsLookup_listed sound.toLayout found here
    have truncated := whole.truncate sound listed here
    cases opening with
    | noMemory => exact whole
    | noDescriptor =>
      cases trunc with
      | false => exact whole
      | true => exact truncated
    | file f =>
      cases trunc with
      | false => exact whole.hold listed here
      | true =>
        have scribbled := truncate_scribbled here
        have spared : Spared fs i kf (fun _ => False) True := .linked listed fun _ => False.elim
        exact truncated.hold ((scribbled.kept sound.toLayout spared).lists.mpr listed)
          (update_self i _ fs.inodes)
  | read found =>
    obtain ⟨opened, here⟩ := fdGet_some found
    rw [regfileRead]
    split
    · exact whole
    · exact whole.move sound opened here _
  | write found =>
    obtain ⟨opened, here⟩ := fdGet_some found
    exact whole.write sound opened here _
  | seek found =>
    obtain ⟨opened, here⟩ := fdGet_some found
    rw [regfileSeek]
    split
    · exact whole
    · exact whole.move sound opened here _
  | close opened => exact whole.close sound opened

end Runs

section Start

variable {nblocks : Nat} {payloads : List Payload} {lost : Nat → Prop}

theorem Imaged.exact (imaged : Imaged nblocks payloads fs) (fits : fitsDevice nblocks payloads)
    (apart : namesApart payloads) (owned : ∀ p ∈ payloads, p.name.bytes = [] → ∀ b, lost b) : Exact lost fs := by
  obtain ⟨children, flat⟩ := imaged.flat fits apart
  obtain ⟨disk, image⟩ := imaged.image
  obtain ⟨listed, _, mounted, _⟩ := imaged.mounted
  rw [kfsMount] at mounted
  split at mounted
  case isFalse => cases mounted
  next magic =>
    simp only [Option.some.injEq, Prod.mk.injEq] at mounted
    obtain ⟨bitmap, _⟩ := mounted
    have root : ∀ name i, (name, i) ∈ children → Lists fs fs.mountpoint name i :=
      fun name i inside => ⟨2, children, flat.root, inside⟩
    refine ⟨?_, ?_, ?_, ?_, ?_, ?_, ?_, fun b _ => by rw [bitmap], magic⟩
    · intro d block slot e entry
      obtain ⟨rfl, rfl, rfl, used⟩ := flat.entry entry
      obtain ⟨name, i, inside, named⟩ := flat.listed slot used
      exact ⟨name, i, root name i inside, named⟩
    · intro p name i count kf listed here
      obtain ⟨slot, used, _, there⟩ := flat.child name i (flat.lists listed)
      rw [there] at here
      cases here
      rfl
    · intro f c opened
      rw [flat.closed f] at opened
      cases opened
    · intro d block table
      obtain ⟨rfl, _⟩ := flat.table table
      exact ⟨0, .root⟩
    · intro d block slot e b entry covered
      obtain ⟨_, _, rfl, used⟩ := flat.entry entry
      obtain ⟨low, high⟩ := (flat.covers used).mp covered
      have := (flat.taken slot b used low high).2
      omega
    · intro b below
      refine ⟨flat.reserved b below, ?_⟩
      rw [imaged.device]
      exact Nat.lt_of_lt_of_le below (Nat.le_trans (Nat.le_add_right 3 _) fits.2.2)
    · intro b taken
      rw [← bitmap, image, image_bitmap] at taken
      refine taken.imp_right ?_
      rintro ⟨slot, inside, low, high⟩
      have entry : dirent (fs.disk 2) slot = payloadDirent payloads[slot.val] slot := by
        rw [image, image_dirent, List.getElem?_eq_getElem inside, Option.map_some, Option.getD_some]
      by_cases text : payloads[slot.val].name.bytes = []
      · exact .inl (owned _ (List.getElem_mem inside) text b)
      · refine .inr ⟨fs.mountpoint, 2, slot, _, ⟨⟨_, flat.root⟩, rfl, ?_⟩, ?_⟩
        · rw [entry, payloadDirent_used, Payload.cut]
          simpa using text
        · rw [entry, Dirent.covers, payloadDirent_isdir, payloadDirent_start]
          exact ⟨low, high⟩

theorem reached_exact (fits : fitsDevice nblocks payloads) (apart : namesApart payloads)
    (owned : ∀ p ∈ payloads, p.name.bytes = [] → ∀ b, lost b)
    (reached : Run.Reach step orderly (Imaged nblocks payloads) fs) : Sound fs ∧ Exact lost fs := by
  refine @Run.Reach.invariant _ _ _ _ _ _ (fun fs => Sound fs ∧ Exact lost fs) ?_ ?_ reached
  · intro s imaged
    obtain ⟨children, flat⟩ := imaged.flat fits apart
    exact ⟨flat.sound, imaged.exact fits apart owned⟩
  · intro s o s' both allowed made
    obtain ⟨sound, whole⟩ := both
    exact ⟨sound.step (whole.writesApart o) made, whole.step sound allowed made⟩

end Start

section Owners

-- The run of a file, the block of a directory.
def occupies (fs : Mount n m) (i : Fin n) (b : Nat) : Prop :=
  match fs.inodes i with
  | some ⟨_, .reg kf⟩ => kf.startBlock ≤ b ∧ b < kf.startBlock + 64
  | some ⟨_, .dir block _⟩ => b = block
  | none => False

/-- The blocks of the files and directories of the tree, the bitmap in memory and on the disk, and
the names in the tables. -/
structure BlocksOwned (fs : Mount n m) : Prop where
  apart : ∀ path path' i j b, vfsLookup fs path = some i → vfsLookup fs path' = some j → occupies fs i b →
    occupies fs j b → i = j
  inside : ∀ path i b, vfsLookup fs path = some i → occupies fs i b → (3 ≤ b ∨ path = [] ∧ b = 2) ∧ b < fs.nblocks
  bits : ∀ b, fs.bitmap b = true ↔ b < 3 ∨ ∃ path i, vfsLookup fs path = some i ∧ occupies fs i b
  saved : ∀ b, bitmapOf (fs.disk 1) b = fs.bitmap b
  names : ∀ path d count block children slot slot', vfsLookup fs path = some d →
    fs.inodes d = some ⟨count, .dir block children⟩ → (dirent (fs.disk block) slot).used = true →
    (dirent (fs.disk block) slot').used = true →
    (dirent (fs.disk block) slot).text = (dirent (fs.disk block) slot').text → slot = slot'

theorem Node.occupies {block b : Nat} {slot : Fin 26} {e : Dirent} {i : Fin n} (node : Node fs block slot e i) :
    occupies fs i b ↔ e.covers b := by
  cases node with
  | reg at_ file start => simp [Fs.occupies, at_, Dirent.covers, file, start]
  | dir at_ isdir start =>
    simp only [Fs.occupies, at_, Dirent.covers, isdir, start, if_true]
    omega

theorem vfsLookup_place (sound : Layout fs) {path : List Name} {i : Fin n} (found : vfsLookup fs path = some i) :
    path = [] ∧ i = fs.mountpoint ∨ ∃ p name block slot e, Lists fs p name i ∧ Entry fs p block slot e ∧
      e.named name = true ∧ Node fs block slot e i := by
  cases path with
  | nil =>
    cases found
    exact .inl ⟨rfl, rfl⟩
  | cons first rest =>
    rw [vfsLookup, vfsWalk] at found
    split at found
    next dir =>
      split at found
      · cases found
      next child there =>
        obtain ⟨rfl, _⟩ := sound.single _ _ _ _ dir
        obtain ⟨p, name, listed⟩ : ∃ p name, Lists fs p name i := by
          cases vfsWalk_listed sound found with
          | inl here => exact ⟨fs.mountpoint, first, _, _, dir, here ▸ findChild_mem there⟩
          | inr listed => exact listed
        obtain ⟨block, children, dir', _⟩ := id listed
        obtain ⟨slot, e, entry, named, node⟩ := sound.placed p block name i ⟨_, dir'⟩ listed
        exact .inr ⟨p, name, block, slot, e, listed, entry, named, node⟩
    · cases found

theorem Exact.blocksOwned (whole : Exact (fun _ => False) fs) (sound : Sound fs) : BlocksOwned fs := by
  have root : ∀ b, occupies fs fs.mountpoint b ↔ b = 2 := by
    intro b
    obtain ⟨children, dir⟩ := sound.root
    rw [occupies, dir]
  refine ⟨?_, ?_, ?_, ?_, ?_⟩
  · intro path path' i j b found found' here here'
    obtain ⟨_, rfl⟩ | ⟨p, name, block, slot, e, listed, entry, named, node⟩ := vfsLookup_place sound.toLayout found
    · obtain ⟨_, rfl⟩ | ⟨p', name', block', slot', e', listed', entry', named', node'⟩ :=
        vfsLookup_place sound.toLayout found'
      · rfl
      · have := (sound.owned _ _ _ _ b entry' (node'.occupies.mp here')).1
        have := (root b).mp here
        omega
    · obtain ⟨_, rfl⟩ | ⟨p', name', block', slot', e', listed', entry', named', node'⟩ :=
        vfsLookup_place sound.toLayout found'
      · have := (sound.owned _ _ _ _ b entry (node.occupies.mp here)).1
        have := (root b).mp here'
        omega
      · obtain ⟨same, rfl⟩ := sound.apart _ _ _ _ _ _ _ _ b entry entry' (node.occupies.mp here)
          (node'.occupies.mp here')
        exact sound.entry_injective listed listed' entry entry' same named named'
  · intro path i b found here
    obtain ⟨rfl, rfl⟩ | ⟨p, name, block, slot, e, listed, entry, named, node⟩ := vfsLookup_place sound.toLayout found
    · obtain rfl := (root b).mp here
      exact ⟨.inr ⟨rfl, rfl⟩, (whole.reserved 2 (by decide)).2⟩
    · have covered := node.occupies.mp here
      exact ⟨.inl (sound.owned _ _ _ _ b entry covered).1,
        Nat.lt_of_lt_of_le (whole.inside _ _ _ _ b entry covered) (Nat.min_le_left _ _)⟩
  · intro b
    constructor
    · intro taken
      refine (whole.owned b taken).imp_right ?_
      rintro (lost | ⟨d, block, slot, e, entry, covered⟩)
      · cases lost
      · obtain ⟨name, i, listed, named⟩ := whole.listed d block slot e entry
        obtain ⟨slot', e', entry', named', node⟩ := sound.placed d block name i entry.table listed
        obtain rfl := sound.names _ _ _ _ _ _ name entry entry' named named'
        have same : e = e' := by rw [← entry.here, ← entry'.here]
        subst same
        obtain ⟨level, rooted⟩ := whole.rooted d block entry.table
        obtain ⟨path, found⟩ := (Rooted.child rooted listed).path sound.toLayout
        exact ⟨path, i, found, node.occupies.mpr covered⟩
    · rintro (low | ⟨path, i, found, here⟩)
      · exact (whole.reserved b low).1
      · obtain ⟨_, rfl⟩ | ⟨p, name, block, slot, e, _, entry, _, node⟩ := vfsLookup_place sound.toLayout found
        · obtain rfl := (root b).mp here
          exact (whole.reserved 2 (by decide)).1
        · exact (sound.owned _ _ _ _ b entry (node.occupies.mp here)).2
  · intro b
    by_cases below : b < 4096
    · exact whole.saved b below
    · rw [bitmapOf, decide_eq_false below, Bool.false_and, eq_comm, Bool.eq_false_iff]
      intro taken
      obtain low | lost | ⟨d, block, slot, e, entry, covered⟩ := whole.owned b taken
      · omega
      · cases lost
      · have := whole.inside _ _ _ _ b entry covered
        omega
  · intro path d count block children slot slot' _ dir used used' same
    obtain ⟨rfl, _⟩ := sound.single _ _ _ _ dir
    have one : Entry fs d block slot _ := ⟨⟨_, dir⟩, rfl, used⟩
    have two : Entry fs d block slot' _ := ⟨⟨_, dir⟩, rfl, used'⟩
    obtain ⟨name, _, _, named⟩ := whole.listed _ _ _ _ one
    obtain ⟨name', _, _, named'⟩ := whole.listed _ _ _ _ two
    rw [Dirent.text_of_named named, Dirent.text_of_named named'] at same
    subst same
    exact sound.names _ _ _ _ _ _ name one two named named'

/-- From an image whose payloads have names, different ones, every block has its owner in every
state of every run in which memory lasts and no open file is unlinked. -/
theorem blocks_owned_when_named {nblocks : Nat} {payloads : List Payload} (fits : fitsDevice nblocks payloads)
    (apart : namesApart payloads) (named : ∀ p ∈ payloads, p.name.bytes ≠ [])
    (reached : Run.Reach step orderly (Imaged nblocks payloads) fs) : BlocksOwned fs := by
  obtain ⟨sound, whole⟩ := reached_exact fits apart (fun p given empty => absurd empty (named p given)) reached
  exact whole.blocksOwned sound

end Owners

section Examples

def pairTable (second : Name) : List Payload := [⟨fileA, [1]⟩, ⟨second, [2]⟩]

-- What the loop over the two payloads comes to.
def pairDisk (second : Name) : Nat → Block :=
  let reserved : Image := ⟨bdWriteBlock (fun _ _ => 0) 0 (superBlock 2), kfsBitSetRun (fun _ => false) 0 true 3,
    fun _ => 0⟩
  let image := (reserved.put ⟨fileA, [1]⟩ 0).put ⟨second, [2]⟩ 1
  bdWriteBlock (bdWriteBlock image.disk 2 image.table) 1 (bitmapBlock image.bitmap)

theorem pairDisk_image (second : Name) : pairDisk second = mkimagePayloads (fun _ _ => 0) (pairTable second) := rfl

theorem pairDisk_bitmap (second : Name) : bitmapOf (pairDisk second 1) = fun b => decide (b < 131) := by
  funext b
  rw [Bool.eq_iff_iff, decide_eq_true_iff, pairDisk_image, image_bitmap]
  constructor
  · rintro (low | ⟨slot, few, _, high⟩)
    · omega
    · have : slot.val < 2 := few
      omega
  · intro below
    by_cases low : b < 3
    · exact .inl low
    · exact .inr ⟨⟨(b - 3) / 64, by omega⟩, show (b - 3) / 64 < 2 by omega, show 3 + 64 * ((b - 3) / 64) ≤ b by omega,
        show b < 3 + 64 * ((b - 3) / 64) + 64 by omega⟩

def pairMount (second : Name) : Mount 5 2 where
  nblocks := 300
  disk := pairDisk second
  bitmap b := decide (b < 131)
  inodes i :=
    if i = 0 then some ⟨1, .dir 2 [(second, 2), (fileA, 1)]⟩
    else if i = 1 then some ⟨1, .reg ⟨3, 1, 64, 2, 0⟩⟩
    else if i = 2 then some ⟨1, .reg ⟨67, 1, 64, 2, 1⟩⟩
    else none
  files _ := none
  mountpoint := 0

-- The mount of what is left on the device after one of two files of one name is unlinked.
def freshMount (fs : Mount 5 2) : Mount 5 2 where
  nblocks := 300
  disk := fs.disk
  bitmap := bitmapOf (fs.disk 1)
  inodes i :=
    if i = 0 then some ⟨1, .dir 2 [(fileA, 1)]⟩
    else if i = 1 then some ⟨1, .reg ⟨67, 1, 64, 2, 1⟩⟩
    else none
  files _ := none
  mountpoint := 0

theorem pair_imaged {second : Name} (shape : kfsMountDir (pairDisk second) 5 2 =
      .reg second ⟨67, 1, 64, 2, 1⟩ (.reg fileA ⟨3, 1, 64, 2, 0⟩ .nil)) :
    Imaged 300 (pairTable second) (pairMount second) where
  device := rfl
  image := ⟨_, pairDisk_image second⟩
  mounted := by
    refine ⟨kfsMountDir (pairDisk second) 5 2, [(second, 2), (fileA, 1)], ?_, rfl, ?_,
      show ([0, 2, 1] : List (Fin 5)).Nodup by decide, ?_⟩
    · have magic := image_magic (fun _ _ => 0) (pairTable second)
      rw [← pairDisk_image] at magic
      rw [kfsMount, show (pairMount second).disk = pairDisk second from rfl, if_pos magic, pairDisk_bitmap, pairMount]
    · rw [shape]
      exact ⟨2, _, rfl, rfl, 1, _, rfl, rfl, rfl⟩
    · show ∀ i, (pairMount second).inodes i ≠ none → i ∈ ([0, 2, 1] : List (Fin 5))
      intro i here
      by_contra outside
      simp only [List.mem_cons, not_or] at outside
      simp [pairMount, outside] at here
  closed _ := rfl

theorem twins_imaged : Imaged 300 (pairTable fileA) (pairMount fileA) := pair_imaged (by decide +kernel)

theorem named_imaged : Imaged 300 (pairTable fileB) (pairMount fileB) := pair_imaged (by decide +kernel)

/-- Two payloads of one name are two entries of that name. -/
theorem twin_payloads_clash : fitsDevice 300 (pairTable fileA) ∧
    ∃ fs : Mount 5 2, Run.Reach step orderly (Imaged 300 (pairTable fileA)) fs ∧ ¬BlocksOwned fs := by
  refine ⟨by decide, pairMount fileA, .start twins_imaged, ?_⟩
  intro owned
  have clash : (dirent (pairDisk fileA 2) 0).used && (dirent (pairDisk fileA 2) 1).used &&
      decide ((dirent (pairDisk fileA 2) 0).text = (dirent (pairDisk fileA 2) 1).text) := by decide +kernel
  simp only [Bool.and_eq_true, decide_eq_true_eq] at clash
  exact absurd (owned.names [] 0 1 2 _ 0 1 rfl rfl clash.1.1 clash.1.2 clash.2) (by decide)

def sub : Name := ⟨[115], by decide⟩

def busyRun : List (Op 5 2) :=
  [.mkdir [] sub (.both 3), .creat [sub] fileA (.both 4), .open [sub, fileA] false (.file 0), .write 0 [7, 8],
    .unlink [] fileA]

theorem blocks_owned_when_named_busy : ∃ fs : Mount 5 2, Run.Reach step orderly (Imaged 300 (pairTable fileB)) fs ∧
    vfsLookup fs [sub, fileA] = some 4 ∧ vfsLookup fs [fileA] = none ∧ BlocksOwned fs := by
  obtain ⟨fs, reached, found, owned⟩ := Run.Reach.found_with
    (P := fun fs => vfsLookup fs [sub, fileA] = some 4 ∧ vfsLookup fs [fileA] = none)
    (fun fs => blocks_owned_when_named (by decide) (by decide) (by decide)) busyRun named_imaged (by decide +kernel)
  exact ⟨fs, reached, found.1, found.2, owned⟩

end Examples

end Kappara.Fs
