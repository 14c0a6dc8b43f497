import Kappara.Fs.Kfs

/-! How the blocks of a mounted kfs are divided.

The used entries of the tables of all directories own disjoint runs of allocated
blocks, and every dentry stands for one of these entries. An entry may be without
a dentry, where memory ran out after it had been written. -/

set_option autoImplicit false

namespace Kappara.Fs

variable {n m : Nat} {i d d' t : Fin n} {b block block' : Nat} {slot slot' : Fin 26} {e e' : Dirent} {name : Name}
  {children : List (Name × Fin n)}

section Dirents

@[simp] theorem Dirent.decode_encode (e : Dirent) : Dirent.decode e.encode = e := by
  have start := Records.word32_wordByte e.startBlock
  have size := Records.word32_wordByte e.sizeBytes
  cases e with
  | mk name startBlock sizeBytes =>
    simp only [Dirent.decode, Dirent.encode, Dirent.mk.injEq]
    refine ⟨?_, start, size⟩
    funext k
    simp

@[simp] theorem dirent_setDirent_self (table : Block) (i : Fin 26) (e : Dirent) :
    dirent (setDirent table i e) i = e := by
  rw [dirent, setDirent, Records.record_setRecord_self, Dirent.decode_encode]

theorem dirent_setDirent_of_ne (table : Block) {i j : Fin 26} (e : Dirent) (other : j ≠ i) :
    dirent (setDirent table i e) j = dirent table j := by
  rw [dirent, setDirent, Records.record_setRecord_of_ne _ _ _ other, dirent]

theorem dirent_setSize_self (table : Block) (i : Fin 26) (size : Nat) :
    dirent (setSize table i size) i = { dirent table i with sizeBytes := BitVec.ofNat 32 size } := by
  rw [setSize, dirent_setDirent_self]

theorem dirent_setSize_of_ne (table : Block) {i j : Fin 26} (size : Nat) (other : j ≠ i) :
    dirent (setSize table i size) j = dirent table j := by
  rw [setSize, dirent_setDirent_of_ne _ _ other]

/-- What an entry says apart from the size. -/
structure Dirent.Same (e e' : Dirent) : Prop where
  name : e'.name = e.name
  startBlock : e'.startBlock = e.startBlock

theorem Dirent.Same.refl (e : Dirent) : e.Same e := ⟨rfl, rfl⟩

theorem dirent_setSize (table : Block) (i j : Fin 26) (size : Nat) :
    (dirent table j).Same (dirent (setSize table i size) j) := by
  by_cases same : j = i
  · subst same
    rw [dirent_setSize_self]
    exact ⟨rfl, rfl⟩
  · rw [dirent_setSize_of_ne table size same]
    exact .refl _

theorem zero_unused (i : Fin 26) : (dirent (fun _ => 0) i).used = false := rfl

theorem Dirent.named_unique {first second : Name} (one : e.named first = true) (two : e.named second = true) :
    first = second := by
  simp only [Dirent.named] at one two
  cases first
  cases second
  simp_all

/-- The blocks an entry stands for. -/
def Dirent.covers (e : Dirent) (b : Nat) : Prop := e.start ≤ b ∧ b < e.start + if e.isdir then 1 else 64

section Same
variable (same : e.Same e')
include same

theorem Dirent.Same.used : e'.used = e.used := by rw [Dirent.used, same.name, Dirent.used]

theorem Dirent.Same.named (name : Name) : e'.named name = e.named name := by rw [Dirent.named, same.name, Dirent.named]

theorem Dirent.Same.isdir : e'.isdir = e.isdir := by rw [Dirent.isdir, same.startBlock, Dirent.isdir]

theorem Dirent.Same.start : e'.start = e.start := by rw [Dirent.start, same.startBlock, Dirent.start]

theorem Dirent.Same.covers : e'.covers b ↔ e.covers b := by rw [Dirent.covers, same.start, same.isdir, Dirent.covers]

end Same

theorem newDirent_bytes (name : Name) (start : Nat) (tag : BitVec 32) (short : name.bytes.length < 11) (k : Fin 11) :
    (newDirent name start tag).name k = name.bytes.getD k 0 := by
  rw [newDirent, List.take_of_length_le (by omega)]

theorem newDirent_used (start : Nat) (tag : BitVec 32) (short : name.bytes.length < 11) (text : name.bytes ≠ []) :
    (newDirent name start tag).used = true := by
  rw [Dirent.used, newDirent_bytes name start tag short]
  cases name with
  | mk bytes zeroFree =>
    cases bytes with
    | nil => exact absurd rfl text
    | cons first rest =>
      have nonzero : first ≠ 0 := fun zero => zeroFree (zero ▸ List.mem_cons_self)
      simpa using nonzero

theorem takeWhile_padded {bytes : List Byte} (zeroFree : 0 ∉ bytes) (pad : List Byte) (zero : ∀ b ∈ pad, b = 0) :
    (bytes ++ pad).takeWhile (· != 0) = bytes := by
  induction bytes with
  | nil =>
    cases pad with
    | nil => rfl
    | cons first rest => simp [zero first List.mem_cons_self]
  | cons first rest ih =>
    have nonzero : first ≠ 0 := fun isZero => zeroFree (isZero ▸ List.mem_cons_self)
    have tail : 0 ∉ rest := fun inside => zeroFree (List.mem_cons_of_mem first inside)
    rw [List.cons_append, List.takeWhile_cons_of_pos (by simpa using nonzero), ih tail]

theorem newDirent_named (start : Nat) (tag : BitVec 32) (short : name.bytes.length < 11) :
    (newDirent name start tag).named name = true := by
  have padded : List.ofFn (newDirent name start tag).name =
      name.bytes ++ List.replicate (11 - name.bytes.length) 0 := by
    apply List.ext_getElem
    · simp
      omega
    · intro k bound _
      rw [List.getElem_ofFn, newDirent_bytes name start tag short, List.getElem_append]
      split
      next inside => simp [inside]
      next outside => simp [Nat.le_of_not_lt outside]
  rw [Dirent.named, padded, takeWhile_padded name.text _ (fun b inside => List.eq_of_mem_replicate inside)]
  simp [short]

theorem newDirent_isdir (name : Name) {start : Nat} (tag : Bool) (small : start < 2 ^ 31) :
    (newDirent name start (if tag then dirBit else 0)).isdir = tag := by
  have clear : BitVec.ofNat 32 start &&& dirBit = 0 := by
    apply BitVec.eq_of_getLsbD_eq
    intro k bound
    by_cases top : k = 31
    · rw [top, BitVec.getLsbD_and, BitVec.getLsbD_ofNat, Nat.testBit_lt_two_pow small]
      rfl
    · have off : ∀ j : Fin 32, j ≠ 31 → dirBit.getLsbD j = false := by decide
      simp [off ⟨k, bound⟩ (fun same => top (congrArg Fin.val same))]
  cases tag with
  | false => simp [Dirent.isdir, newDirent, clear]
  | true =>
    simp only [Dirent.isdir, newDirent, BitVec.and_or_distrib_right, clear]
    decide

theorem newDirent_start (name : Name) {start : Nat} (tag : Bool) (small : start < 2 ^ 31) :
    (newDirent name start (if tag then dirBit else 0)).start = start := by
  have kept : (BitVec.ofNat 32 start &&& ~~~dirBit).toNat = start := by
    have mask : (~~~dirBit).toNat = 2 ^ 31 - 1 := rfl
    rw [BitVec.toNat_and, BitVec.toNat_ofNat, mask, Nat.mod_eq_of_lt (by omega), Nat.and_two_pow_sub_one_eq_mod,
      Nat.mod_eq_of_lt small]
  cases tag with
  | false => simp [Dirent.start, newDirent, kept]
  | true =>
    have gone : dirBit &&& ~~~dirBit = 0#32 := rfl
    simp only [Dirent.start, newDirent, if_true, BitVec.and_or_distrib_right, gone, BitVec.or_zero, kept]

end Dirents

section Scans

theorem kfsBitSetRun_apply (bitmap : Nat → Bool) (start : Nat) (val : Bool) (count b : Nat) :
    kfsBitSetRun bitmap start val count b = if start ≤ b ∧ b < start + count then val else bitmap b := by
  induction count with
  | zero => simp [kfsBitSetRun]
  | succ count ih =>
    rw [kfsBitSetRun, kfsBitSet, Function.update_apply, ih]
    split_ifs <;> first | rfl | omega

theorem zeroRun_apply (disk : Nat → Block) (start count b : Nat) :
    zeroRun disk start count b = if start ≤ b ∧ b < start + count then fun _ => 0 else disk b := by
  induction count with
  | zero => simp [zeroRun]
  | succ count ih =>
    rw [zeroRun, bdWriteBlock, Function.update_apply, ih]
    split_ifs <;> first | rfl | omega

theorem findRun_free {nblocks count start : Nat} {bitmap : Nat → Bool}
    (found : findRun nblocks bitmap count = some start) :
    3 ≤ start ∧ start + count ≤ min nblocks 4096 ∧ ∀ b, start ≤ b → b < start + count → bitmap b = false := by
  have inside := List.mem_of_find?_eq_some found
  have free := List.find?_some found
  rw [List.mem_range'_1] at inside
  refine ⟨inside.1, by omega, ?_⟩
  intro b above below
  have here := List.all_eq_true.mp free (b - start) (List.mem_range.mpr (by omega))
  rw [Nat.add_sub_cancel' above] at here
  simpa using here

theorem findSlot_free {table : Block} (found : kfsDirFindSlot table name = some slot) :
    name.bytes.length < 11 ∧ (dirent table slot).used = false ∧
      ∀ i, (dirent table i).used = true → (dirent table i).named name = false := by
  obtain ⟨short, found⟩ := Option.ite_none_left_eq_some.mp found
  obtain ⟨unique, found⟩ := Option.ite_none_left_eq_some.mp found
  have free := List.find?_some found
  refine ⟨by omega, by simpa using free, ?_⟩
  intro i used
  simp only [List.any_eq_true, List.mem_finRange, true_and, not_exists, Bool.and_eq_true, not_and] at unique
  exact Bool.eq_false_iff.mpr (unique i used)

theorem findNamed_some {table : Block} (found : kfsDirFindNamed table name = some slot) :
    (dirent table slot).used = true ∧ (dirent table slot).named name = true := by
  have here := List.find?_some found
  rwa [Bool.and_eq_true] at here

theorem findChild_mem (found : findChild children name = some i) : (name, i) ∈ children := by
  rw [findChild, Option.map_eq_some_iff] at found
  obtain ⟨child, there, rfl⟩ := found
  have same : child.1 = name := by simpa using List.find?_some there
  rw [← same]
  exact List.mem_of_find?_eq_some there

theorem findChild_none (missing : findChild children name = none) (i : Fin n) : (name, i) ∉ children := by
  intro inside
  rw [findChild, Option.map_eq_none_iff, List.find?_eq_none] at missing
  exact missing _ inside (by simp)

theorem not_mem_erased (nodup : (children.map (·.1)).Nodup) (i : Fin n) :
    (name, i) ∉ children.eraseP fun child => child.1 = name := by
  induction children with
  | nil => simp
  | cons first rest ih =>
    rw [List.map_cons, List.nodup_cons] at nodup
    by_cases same : first.1 = name
    · rw [List.eraseP_cons_of_pos (by simpa using same)]
      intro inside
      exact nodup.1 (same ▸ List.mem_map_of_mem inside)
    · rw [List.eraseP_cons_of_neg (by simpa using same), List.mem_cons]
      rintro (rfl | inside)
      · exact same rfl
      · exact ih nodup.2 inside

theorem mem_erased {other : Name} {j : Fin n} (nodup : (children.map (·.1)).Nodup) (child : (name, i) ∈ children)
    (inside : (other, j) ∈ children) (kept : j ≠ i) : (other, j) ∈ children.eraseP fun child => child.1 = name := by
  refine (List.mem_eraseP_of_neg ?_).mpr inside
  intro same
  have sameName : other = name := by simpa using same
  subst sameName
  exact kept (congrArg Prod.snd (List.inj_on_of_nodup_map nodup inside child rfl))

end Scans

section

variable (fs : Mount n m) (d : Fin n) (block : Nat)

def IsDir (children : List (Name × Fin n)) : Prop :=
  fs.inodes d = some ⟨1, .dir block children⟩

def Table : Prop := ∃ children, IsDir fs d block children

def Lists (name : Name) (i : Fin n) : Prop :=
  ∃ block children, IsDir fs d block children ∧ (name, i) ∈ children

structure Entry (slot : Fin 26) (e : Dirent) : Prop where
  table : Table fs d block
  here : dirent (fs.disk block) slot = e
  used : e.used = true

/-- The inode behind an entry. -/
inductive Node (slot : Fin 26) (e : Dirent) (i : Fin n) : Prop where
  | reg {count : Nat} {kf : KfsFile} : fs.inodes i = some ⟨count, .reg kf⟩ → e.isdir = false → kf.startBlock = e.start →
      kf.dirBlock = block → kf.direntIdx = slot → kf.allocBlocks = 64 → kf.sizeBytes ≤ 64 * 512 → Node slot e i
  | dir {count block' : Nat} {children : List (Name × Fin n)} : fs.inodes i = some ⟨count, .dir block' children⟩ →
      e.isdir = true → e.start = block' → Node slot e i

theorem addChild_rest (fs : Mount n m) (d : Fin n) (name : Name) (body : Body n) (made : Made n) :
    (addChild fs d name body made).bitmap = fs.bitmap ∧ (addChild fs d name body made).files = fs.files ∧
      (addChild fs d name body made).nblocks = fs.nblocks := by
  cases made with
  | none | unnamed | bare => exact ⟨rfl, rfl, rfl⟩
  | both i =>
    rw [addChild]
    split <;> exact ⟨rfl, rfl, rfl⟩

structure Layout : Prop where
  root : Table fs fs.mountpoint 2
  single : ∀ d count block children, fs.inodes d = some ⟨count, .dir block children⟩ →
    count = 1 ∧ (children.map (·.1)).Nodup ∧ 2 ≤ block ∧ fs.bitmap block = true
  alone : ∀ d d' block, Table fs d block → Table fs d' block → d = d'
  owned : ∀ d block slot e b, Entry fs d block slot e → e.covers b → 3 ≤ b ∧ fs.bitmap b = true
  apart : ∀ d block slot e d' block' slot' e' b, Entry fs d block slot e → Entry fs d' block' slot' e' →
    e.covers b → e'.covers b → d = d' ∧ slot = slot'
  names : ∀ d block slot slot' e e' name, Entry fs d block slot e → Entry fs d block slot' e' →
    e.named name = true → e'.named name = true → slot = slot'
  inner : ∀ d block, Table fs d block → d ≠ fs.mountpoint → ∃ p name, Lists fs p name d
  placed : ∀ d block name i, Table fs d block → Lists fs d name i →
    ∃ slot e, Entry fs d block slot e ∧ e.named name = true ∧ Node fs block slot e i

end

theorem Table.unique {fs : Mount n m} (one : Table fs d block) (two : Table fs d block') : block = block' := by
  obtain ⟨children, one⟩ := one
  obtain ⟨children', two⟩ := two
  rw [IsDir] at one two
  simp_all

namespace Layout

variable {fs fs' : Mount n m}

theorem dir_block (sound : Layout fs) (table : Table fs d block) : 2 ≤ block ∧ fs.bitmap block = true := by
  obtain ⟨children, here⟩ := table
  exact (sound.single _ _ _ _ here).2.2

theorem node_table (node : Node fs block slot e i) (table : Table fs i b) : e.isdir = true ∧ e.start = b := by
  obtain ⟨children, here⟩ := table
  rw [IsDir] at here
  cases node with
  | reg at_ => simp [at_] at here
  | dir at_ isdir start =>
    rw [at_] at here
    cases here
    exact ⟨isdir, start⟩

/-- An entry that covers the table of a directory is the one the directory is listed by. -/
theorem covering (sound : Layout fs) (entry : Entry fs d block slot e) (table : Table fs t b) (covered : e.covers b) :
    e.isdir = true ∧ ∃ name, Lists fs d name t ∧ e.named name = true := by
  have inner : t ≠ fs.mountpoint := by
    intro root
    have two := Table.unique table (root ▸ sound.root)
    have := (sound.owned _ _ _ _ _ entry covered).1
    omega
  obtain ⟨p, name, listed⟩ := sound.inner t b table inner
  obtain ⟨block', children, dir, inside⟩ := listed
  obtain ⟨slot', e', entry', named, node⟩ := sound.placed p block' name t ⟨_, dir⟩ ⟨_, _, dir, inside⟩
  obtain ⟨isdir, start⟩ := node_table node table
  have covers' : e'.covers b := by
    simp [Dirent.covers, isdir, start]
  obtain ⟨rfl, rfl⟩ := sound.apart _ _ _ _ _ _ _ _ b entry entry' covered covers'
  have sameBlock := Table.unique entry.table entry'.table
  have sameEntry : e = e' := by rw [← entry.here, ← entry'.here, sameBlock]
  subst sameEntry
  exact ⟨isdir, name, ⟨_, _, dir, inside⟩, named⟩

/-- Steps that change neither the directories nor where the files lie. -/
structure Kept (fs fs' : Mount n m) : Prop where
  mount : fs'.mountpoint = fs.mountpoint
  bits : fs'.bitmap = fs.bitmap
  dirs : ∀ d count block children,
    fs'.inodes d = some ⟨count, .dir block children⟩ ↔ fs.inodes d = some ⟨count, .dir block children⟩
  regs : ∀ d name i count kf, Lists fs d name i → fs.inodes i = some ⟨count, .reg kf⟩ → kf.sizeBytes ≤ 64 * 512 →
    ∃ count' size, size ≤ 64 * 512 ∧ fs'.inodes i = some ⟨count', .reg { kf with sizeBytes := size }⟩
  entries : ∀ d block, Table fs d block → ∀ slot, (dirent (fs.disk block) slot).Same (dirent (fs'.disk block) slot)

namespace Kept

variable (kept : Kept fs fs')
include kept

theorem table : Table fs' d block ↔ Table fs d block := by
  simp [Table, IsDir, kept.dirs]

theorem lists : Lists fs' d name i ↔ Lists fs d name i := by
  simp [Lists, IsDir, kept.dirs]

theorem entry (entry : Entry fs' d block slot e') : ∃ e, Entry fs d block slot e ∧ e.Same e' := by
  have table := kept.table.mp entry.table
  have same := kept.entries d block table slot
  rw [entry.here] at same
  exact ⟨_, ⟨table, rfl, by rw [← same.used, entry.used]⟩, same⟩

theorem entry_back (entry : Entry fs d block slot e) : ∃ e', Entry fs' d block slot e' ∧ e.Same e' := by
  have same := kept.entries d block entry.table slot
  rw [entry.here] at same
  exact ⟨_, ⟨kept.table.mpr entry.table, rfl, by rw [same.used, entry.used]⟩, same⟩

theorem layout (sound : Layout fs) : Layout fs' where
  root := by
    rw [kept.mount]
    exact kept.table.mpr sound.root
  single d count block children here := by
    rw [kept.bits]
    exact sound.single d count block children ((kept.dirs _ _ _ _).mp here)
  alone d d' block one two := sound.alone d d' block (kept.table.mp one) (kept.table.mp two)
  owned d block slot e' b entry covers := by
    obtain ⟨e, entry, same⟩ := kept.entry entry
    rw [kept.bits]
    exact sound.owned d block slot e b entry (same.covers.mp covers)
  apart d block slot e' d₂ block₂ slot₂ e₂' b one two coversOne coversTwo := by
    obtain ⟨e, one, same⟩ := kept.entry one
    obtain ⟨e₂, two, same₂⟩ := kept.entry two
    exact sound.apart _ _ _ _ _ _ _ _ b one two (same.covers.mp coversOne) (same₂.covers.mp coversTwo)
  names d block slot slot₂ e' e₂' name one two namedOne namedTwo := by
    obtain ⟨e, one, same⟩ := kept.entry one
    obtain ⟨e₂, two, same₂⟩ := kept.entry two
    exact sound.names d block slot slot₂ e e₂ name one two (by rw [← same.named, namedOne])
      (by rw [← same₂.named, namedTwo])
  inner d block table notRoot := by
    rw [kept.mount] at notRoot
    obtain ⟨p, name, listed⟩ := sound.inner d block (kept.table.mp table) notRoot
    exact ⟨p, name, kept.lists.mpr listed⟩
  placed d block name i table listed := by
    have before := kept.lists.mp listed
    obtain ⟨slot, e, entry, named, node⟩ := sound.placed d block name i (kept.table.mp table) before
    obtain ⟨e', entry', same⟩ := kept.entry_back entry
    refine ⟨slot, e', entry', by rw [same.named, named], ?_⟩
    cases node with
    | reg at_ isdir start dirBlock idx alloc size =>
      obtain ⟨count, size', bound, now⟩ := kept.regs d name i _ _ before at_ size
      exact .reg now (by rw [same.isdir, isdir]) (by rw [same.start, ← start]) dirBlock idx alloc bound
    | dir at_ isdir start =>
      exact .dir ((kept.dirs _ _ _ _).mpr at_) (by rw [same.isdir, isdir]) (by rw [same.start, start])

end Kept

structure Entered (fs fs' : Mount n m) (d : Fin n) (block : Nat) (slot : Fin 26) (e : Dirent) : Prop where
  table : Table fs d block
  free : (dirent (fs.disk block) slot).used = false
  used : e.used = true
  unnamed : ∀ name i, e.named name = true → (dirent (fs.disk block) i).used = true →
    (dirent (fs.disk block) i).named name = false
  fresh : ∀ b, e.covers b → 3 ≤ b ∧ fs.bitmap b = false
  mount : fs'.mountpoint = fs.mountpoint
  inodes : fs'.inodes = fs.inodes
  bits : ∀ b, fs'.bitmap b = true ↔ e.covers b ∨ fs.bitmap b = true
  here : fs'.disk block = setDirent (fs.disk block) slot e
  there : ∀ b, 2 ≤ b → fs.bitmap b = true → b ≠ block → fs'.disk b = fs.disk b

structure Cleared (fs fs' : Mount n m) (d : Fin n) (block : Nat) (slot : Fin 26) (e : Dirent) : Prop where
  entry : Entry fs d block slot e
  unlisted : ∀ name i, e.named name = true → ¬Lists fs d name i
  mount : fs'.mountpoint = fs.mountpoint
  inodes : fs'.inodes = fs.inodes
  bits : ∀ b, fs'.bitmap b = true ↔ ¬e.covers b ∧ fs.bitmap b = true
  here : fs'.disk block = setDirent (fs.disk block) slot .empty
  there : ∀ b, 2 ≤ b → b ≠ block → fs'.disk b = fs.disk b

section

theorem table_congr (inodes : fs'.inodes = fs.inodes) : Table fs' t b ↔ Table fs t b := by
  simp [Table, IsDir, inodes]

theorem lists_congr (inodes : fs'.inodes = fs.inodes) : Lists fs' t name i ↔ Lists fs t name i := by
  simp [Lists, IsDir, inodes]

theorem node_congr (inodes : fs'.inodes i = fs.inodes i) (node : Node fs b slot' e' i) : Node fs' b slot' e' i := by
  cases node with
  | reg at_ isdir start dirBlock idx alloc size => exact .reg (inodes.trans at_) isdir start dirBlock idx alloc size
  | dir at_ isdir start => exact .dir (inodes.trans at_) isdir start

section

variable (entered : Entered fs fs' d block slot e)
include entered

theorem Entered.entry (sound : Layout fs) (entry : Entry fs' d' block' slot' e') :
    d' = d ∧ block' = block ∧ slot' = slot ∧ e' = e ∨ Entry fs d' block' slot' e' := by
  have table := (table_congr entered.inodes).mp entry.table
  have here := entry.here
  by_cases sameBlock : block' = block
  · subst sameBlock
    obtain rfl := sound.alone _ _ _ table entered.table
    rw [entered.here] at here
    by_cases sameSlot : slot' = slot
    · subst sameSlot
      rw [dirent_setDirent_self] at here
      exact .inl ⟨rfl, rfl, rfl, here.symm⟩
    · rw [dirent_setDirent_of_ne _ _ sameSlot] at here
      exact .inr ⟨table, here, entry.used⟩
  · obtain ⟨above, taken⟩ := sound.dir_block table
    rw [entered.there block' above taken sameBlock] at here
    exact .inr ⟨table, here, entry.used⟩

theorem Entered.entry_back (sound : Layout fs) (entry : Entry fs d' block' slot' e') :
    Entry fs' d' block' slot' e' := by
  refine ⟨(table_congr entered.inodes).mpr entry.table, ?_, entry.used⟩
  by_cases sameBlock : block' = block
  · subst sameBlock
    have otherSlot : slot' ≠ slot := by
      rintro rfl
      have used := entry.used
      rw [← entry.here, entered.free] at used
      cases used
    rw [entered.here, dirent_setDirent_of_ne _ _ otherSlot, entry.here]
  · obtain ⟨above, taken⟩ := sound.dir_block entry.table
    rw [entered.there block' above taken sameBlock, entry.here]

theorem Entered.new : Entry fs' d block slot e :=
  ⟨(table_congr entered.inodes).mpr entered.table, by rw [entered.here, dirent_setDirent_self], entered.used⟩

theorem Entered.layout (sound : Layout fs) : Layout fs' where
  root := by
    rw [entered.mount]
    exact (table_congr entered.inodes).mpr sound.root
  single t count b children here := by
    rw [entered.inodes] at here
    obtain ⟨one, nodup, above, taken⟩ := sound.single t count b children here
    exact ⟨one, nodup, above, (entered.bits b).mpr (.inr taken)⟩
  alone t t' b one two := sound.alone t t' b ((table_congr entered.inodes).mp one) ((table_congr entered.inodes).mp two)
  owned t b slot' e' c entry covers := by
    cases entered.entry sound entry with
    | inl new =>
      obtain ⟨_, _, _, rfl⟩ := new
      exact ⟨(entered.fresh c covers).1, (entered.bits c).mpr (.inl covers)⟩
    | inr old =>
      obtain ⟨above, taken⟩ := sound.owned _ _ _ _ _ old covers
      exact ⟨above, (entered.bits c).mpr (.inr taken)⟩
  apart t b slot₁ e₁ t' b' slot₂ e₂ c one two coversOne coversTwo := by
    cases entered.entry sound one with
    | inl new =>
      obtain ⟨rfl, _, rfl, rfl⟩ := new
      cases entered.entry sound two with
      | inl new' => exact ⟨new'.1.symm, new'.2.2.1.symm⟩
      | inr old' =>
        have taken := (sound.owned _ _ _ _ _ old' coversTwo).2
        rw [(entered.fresh c coversOne).2] at taken
        cases taken
    | inr old =>
      cases entered.entry sound two with
      | inl new' =>
        obtain ⟨_, _, _, rfl⟩ := new'
        have taken := (sound.owned _ _ _ _ _ old coversOne).2
        rw [(entered.fresh c coversTwo).2] at taken
        cases taken
      | inr old' => exact sound.apart _ _ _ _ _ _ _ _ c old old' coversOne coversTwo
  names t b slot₁ slot₂ e₁ e₂ name one two namedOne namedTwo := by
    cases entered.entry sound one with
    | inl new =>
      obtain ⟨rfl, rfl, rfl, rfl⟩ := new
      cases entered.entry sound two with
      | inl new' => exact new'.2.2.1.symm
      | inr old' =>
        have other := entered.unnamed name slot₂ namedOne (by rw [old'.here, old'.used])
        rw [old'.here, namedTwo] at other
        cases other
    | inr old =>
      cases entered.entry sound two with
      | inl new' =>
        obtain ⟨rfl, rfl, rfl, rfl⟩ := new'
        have other := entered.unnamed name slot₁ namedTwo (by rw [old.here, old.used])
        rw [old.here, namedOne] at other
        cases other
      | inr old' => exact sound.names _ _ _ _ _ _ name old old' namedOne namedTwo
  inner t b table notRoot := by
    rw [entered.mount] at notRoot
    obtain ⟨p, name, listed⟩ := sound.inner t b ((table_congr entered.inodes).mp table) notRoot
    exact ⟨p, name, (lists_congr entered.inodes).mpr listed⟩
  placed t b name i table listed := by
    obtain ⟨slot', e', entry, named, node⟩ :=
      sound.placed t b name i ((table_congr entered.inodes).mp table) ((lists_congr entered.inodes).mp listed)
    exact ⟨slot', e', entered.entry_back sound entry, named, node_congr (by rw [entered.inodes]) node⟩

end

section

variable (cleared : Cleared fs fs' d block slot e) (sound : Layout fs)
include cleared sound

theorem Cleared.entry' (entry : Entry fs' d' block' slot' e') :
    Entry fs d' block' slot' e' ∧ ¬(d' = d ∧ slot' = slot) := by
  have table := (table_congr cleared.inodes).mp entry.table
  have here := entry.here
  by_cases sameBlock : block' = block
  · subst sameBlock
    rw [cleared.here] at here
    by_cases sameSlot : slot' = slot
    · subst sameSlot
      rw [dirent_setDirent_self] at here
      have used := entry.used
      rw [← here] at used
      cases used
    · rw [dirent_setDirent_of_ne _ _ sameSlot] at here
      exact ⟨⟨table, here, entry.used⟩, fun both => sameSlot both.2⟩
  · rw [cleared.there block' (sound.dir_block table).1 sameBlock] at here
    refine ⟨⟨table, here, entry.used⟩, ?_⟩
    rintro ⟨rfl, _⟩
    exact sameBlock (Table.unique table cleared.entry.table)

theorem Cleared.entry_back (entry : Entry fs d' block' slot' e') (other : ¬(d' = d ∧ slot' = slot)) :
    Entry fs' d' block' slot' e' := by
  refine ⟨(table_congr cleared.inodes).mpr entry.table, ?_, entry.used⟩
  by_cases sameBlock : block' = block
  · subst sameBlock
    have sameDir := sound.alone _ _ _ entry.table cleared.entry.table
    rw [cleared.here, dirent_setDirent_of_ne _ _ (fun same => other ⟨sameDir, same⟩), entry.here]
  · rw [cleared.there block' (sound.dir_block entry.table).1 sameBlock, entry.here]

theorem Cleared.layout : Layout fs' where
  root := by
    rw [cleared.mount]
    exact (table_congr cleared.inodes).mpr sound.root
  single t count b children here := by
    rw [cleared.inodes] at here
    obtain ⟨one, nodup, above, taken⟩ := sound.single t count b children here
    refine ⟨one, nodup, above, (cleared.bits b).mpr ⟨?_, taken⟩⟩
    intro covered
    subst one
    obtain ⟨_, name, listed, named⟩ := sound.covering cleared.entry ⟨_, here⟩ covered
    exact cleared.unlisted name t named listed
  alone t t' b one two := sound.alone t t' b ((table_congr cleared.inodes).mp one) ((table_congr cleared.inodes).mp two)
  owned t b slot' e' c entry covers := by
    obtain ⟨old, other⟩ := cleared.entry' sound entry
    obtain ⟨above, taken⟩ := sound.owned _ _ _ _ _ old covers
    refine ⟨above, (cleared.bits c).mpr ⟨?_, taken⟩⟩
    intro covered
    exact other (sound.apart _ _ _ _ _ _ _ _ c old cleared.entry covers covered)
  apart t b slot₁ e₁ t' b' slot₂ e₂ c one two coversOne coversTwo :=
    sound.apart _ _ _ _ _ _ _ _ c (cleared.entry' sound one).1 (cleared.entry' sound two).1 coversOne coversTwo
  names t b slot₁ slot₂ e₁ e₂ name one two namedOne namedTwo :=
    sound.names _ _ _ _ _ _ name (cleared.entry' sound one).1 (cleared.entry' sound two).1 namedOne namedTwo
  inner t b table notRoot := by
    rw [cleared.mount] at notRoot
    obtain ⟨p, name, listed⟩ := sound.inner t b ((table_congr cleared.inodes).mp table) notRoot
    exact ⟨p, name, (lists_congr cleared.inodes).mpr listed⟩
  placed t b name i table listed := by
    have before := (lists_congr cleared.inodes).mp listed
    obtain ⟨slot', e', entry, named, node⟩ := sound.placed t b name i ((table_congr cleared.inodes).mp table) before
    refine ⟨slot', e', cleared.entry_back sound entry ?_, named, node_congr (by rw [cleared.inodes]) node⟩
    rintro ⟨rfl, rfl⟩
    have sameBlock := Table.unique entry.table cleared.entry.table
    have sameEntry : e' = e := by rw [← entry.here, ← cleared.entry.here, sameBlock]
    exact cleared.unlisted name i (sameEntry ▸ named) before

end

end

end Layout

end Kappara.Fs
