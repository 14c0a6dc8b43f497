import Kappara.Fs.Layout

/-! Dentries coming and going, and the reference counts of inodes.

An inode is counted by the dentry that names it and by every open file. The count
never falls short of these, so a record in use is not freed. -/

set_option autoImplicit false

namespace Kappara.Fs

variable {n m : Nat} {fs fs' : Mount n m} {d x : Fin n} {block : Nat} {children : List (Name × Fin n)} {name : Name}

variable {other : Name} {t y i : Fin n} {b count : Nat} {slot slot' : Fin 26} {e e' : Dirent}

namespace Layout

theorem listed_once (sound : Layout fs) {p : Fin n} (one : Lists fs p other x) (two : Lists fs d name x) :
    p = d ∧ other = name := by
  obtain ⟨b, _, dir, _⟩ := id one
  obtain ⟨b', _, dir', _⟩ := id two
  obtain ⟨slot, e, entry, named, node⟩ := sound.placed p b other x ⟨_, dir⟩ one
  obtain ⟨slot', e', entry', named', node'⟩ := sound.placed d b' name x ⟨_, dir'⟩ two
  have same : p = d ∧ slot = slot' := by
    cases node with
    | reg at_ _ _ dirBlock idx =>
      cases node' with
      | reg at_' _ _ dirBlock' idx' =>
        rw [at_] at at_'
        cases at_'
        refine ⟨sound.alone p d b entry.table ?_, idx.symm.trans idx'⟩
        rw [← dirBlock, dirBlock']
        exact entry'.table
      | dir at_' => simp [at_] at at_'
    | dir at_ isdir start =>
      cases node' with
      | reg at_' => simp [at_] at at_'
      | dir at_' isdir' start' =>
        rw [at_] at at_'
        cases at_'
        exact sound.apart _ _ _ _ _ _ _ _ e.start entry entry' (by simp [Dirent.covers, isdir])
          (by simp [Dirent.covers, isdir', start, start'])
  obtain ⟨rfl, rfl⟩ := same
  have sameBlock := Table.unique entry.table entry'.table
  have sameEntry : e = e' := by rw [← entry.here, ← entry'.here, sameBlock]
  subst sameEntry
  exact ⟨rfl, Dirent.named_unique named named'⟩

theorem bare_lists (sound : Layout fs) (table : Table fs t b)
    (bare : ∀ slot, (dirent (fs.disk b) slot).used = false) : ¬Lists fs t other y := by
  intro listed
  obtain ⟨slot, e, entry, _, _⟩ := sound.placed t b other y table listed
  have used := entry.used
  rw [← entry.here, bare slot] at used
  cases used

/-- What a new inode has to be for the entry it is listed by. -/
inductive Fits (fs : Mount n m) (block : Nat) (slot : Fin 26) (e : Dirent) : Body n → Prop where
  | reg {kf : KfsFile} : e.isdir = false → kf.startBlock = e.start → kf.dirBlock = block → kf.direntIdx = slot →
      kf.allocBlocks = 64 → kf.sizeBytes ≤ 64 * 512 → Fits fs block slot e (.reg kf)
  | dir : e.isdir = true → (∀ t, ¬Table fs t e.start) → (∀ slot', (dirent (fs.disk e.start) slot').used = false) →
      Fits fs block slot e (.dir e.start [])

/-- A directory has another list of children, and besides it at most the inode x has changed. -/
structure Relisted (fs fs' : Mount n m) (d : Fin n) (block : Nat) (children children' : List (Name × Fin n))
    (x : Fin n) : Prop where
  dir : IsDir fs d block children
  listing : IsDir fs' d block children'
  rest : ∀ i, i ≠ d → i ≠ x → fs'.inodes i = fs.inodes i

namespace Relisted

variable {children' : List (Name × Fin n)} (relisted : Relisted fs fs' d block children children' x)
include relisted

theorem table (kept : t ≠ x) : Table fs' t b ↔ Table fs t b := by
  by_cases same : t = d
  · subst same
    constructor
    · intro now
      obtain rfl := Table.unique now ⟨_, relisted.listing⟩
      exact ⟨_, relisted.dir⟩
    · intro before
      obtain rfl := Table.unique before ⟨_, relisted.dir⟩
      exact ⟨_, relisted.listing⟩
  · simp [Table, IsDir, relisted.rest t same kept]

theorem reg {kf : KfsFile} (kept : i ≠ x) :
    fs'.inodes i = some ⟨count, .reg kf⟩ ↔ fs.inodes i = some ⟨count, .reg kf⟩ := by
  by_cases same : i = d
  · subst same
    have before := relisted.dir
    have now := relisted.listing
    rw [IsDir] at before now
    simp [before, now]
  · rw [relisted.rest i same kept]

theorem node (kept : i ≠ x) (node : Node fs b slot e i) : Node fs' b slot e i := by
  cases node with
  | reg at_ isdir start dirBlock idx alloc size =>
    exact .reg ((relisted.reg kept).mpr at_) isdir start dirBlock idx alloc size
  | dir at_ isdir start =>
    by_cases same : i = d
    · subst same
      have dir := relisted.dir
      rw [IsDir, at_] at dir
      cases dir
      exact .dir relisted.listing isdir start
    · exact .dir ((relisted.rest i same kept).trans at_) isdir start

end Relisted

structure Attached (fs fs' : Mount n m) (d : Fin n) (block : Nat) (children : List (Name × Fin n)) (name : Name)
    (x : Fin n) (body : Body n) : Prop where
  dir : IsDir fs d block children
  fresh : fs.inodes x = none
  mount : fs'.mountpoint = fs.mountpoint
  disk : fs'.disk = fs.disk
  bits : fs'.bitmap = fs.bitmap
  listing : fs'.inodes d = some ⟨1, .dir block ((name, x) :: children)⟩
  new : fs'.inodes x = some ⟨1, body⟩
  rest : ∀ i, i ≠ d → i ≠ x → fs'.inodes i = fs.inodes i

namespace Attached

variable {body : Body n} (attached : Attached fs fs' d block children name x body)
include attached

theorem old_ne {inode : Inode n} (here : fs.inodes i = some inode) : i ≠ x := by
  rintro rfl
  rw [attached.fresh] at here
  cases here

theorem relisted : Relisted fs fs' d block children ((name, x) :: children) x :=
  ⟨attached.dir, attached.listing, attached.rest⟩

theorem table (before : Table fs t b) : Table fs' t b := by
  obtain ⟨children', here⟩ := id before
  exact (attached.relisted.table (attached.old_ne here)).mpr before

theorem table_back (table : Table fs' t b) : Table fs t b ∨ t = x ∧ ∃ listed, body = .dir b listed := by
  by_cases isNew : t = x
  · subst isNew
    obtain ⟨children', here⟩ := table
    rw [IsDir, attached.new] at here
    cases here
    exact .inr ⟨rfl, _, rfl⟩
  · exact .inl ((attached.relisted.table isNew).mp table)

theorem lists : Lists fs t other y → Lists fs' t other y := by
  rintro ⟨b, children', here, inside⟩
  by_cases same : t = d
  · subst same
    have dir := attached.dir
    rw [IsDir] at here dir
    rw [here] at dir
    cases dir
    exact ⟨_, _, attached.listing, List.mem_cons_of_mem _ inside⟩
  · exact ⟨b, children', (attached.rest t same (attached.old_ne here)).trans here, inside⟩

theorem lists_back (fits : Fits fs block slot e body) (listed : Lists fs' t other y) :
    Lists fs t other y ∨ t = d ∧ other = name ∧ y = x := by
  obtain ⟨b, children', here, inside⟩ := listed
  rw [IsDir] at here
  by_cases isNew : t = x
  · subst isNew
    rw [attached.new] at here
    cases here
    cases fits
    cases inside
  by_cases same : t = d
  · subst same
    rw [attached.listing] at here
    cases here
    cases inside with
    | head => exact .inr ⟨rfl, rfl, rfl⟩
    | tail _ inside => exact .inl ⟨_, _, attached.dir, inside⟩
  · rw [attached.rest t same isNew] at here
    exact .inl ⟨_, _, here, inside⟩

theorem entry_back (fits : Fits fs block slot e body) (entry : Entry fs' t b slot' e') : Entry fs t b slot' e' := by
  have here := entry.here
  rw [attached.disk] at here
  cases attached.table_back entry.table with
  | inl old => exact ⟨old, here, entry.used⟩
  | inr new =>
    obtain ⟨rfl, listed, rfl⟩ := new
    cases fits with
    | dir _ _ bare =>
      have used := entry.used
      rw [← here, bare slot'] at used
      cases used

theorem entry (entry : Entry fs t b slot' e') :
    Entry fs' t b slot' e' := ⟨attached.table entry.table, by rw [attached.disk, entry.here], entry.used⟩

theorem node (node : Node fs b slot' e' i) : Node fs' b slot' e' i := by
  refine attached.relisted.node ?_ node
  cases node with
  | reg at_ | dir at_ => exact attached.old_ne at_

theorem layout (sound : Layout fs) (entered : Entry fs d block slot e) (named : e.named name = true)
    (unlisted : ∀ y, (name, y) ∉ children) (fits : Fits fs block slot e body) : Layout fs' where
  root := by
    rw [attached.mount]
    exact attached.table sound.root
  single t count b children' here := by
    rw [attached.bits]
    by_cases isNew : t = x
    · subst isNew
      rw [attached.new] at here
      cases here
      cases fits with
      | dir isdir _ _ =>
        obtain ⟨above, taken⟩ := sound.owned _ _ _ _ e.start entered (by simp [Dirent.covers, isdir])
        exact ⟨rfl, List.nodup_nil, by omega, taken⟩
    by_cases same : t = d
    · subst same
      rw [attached.listing] at here
      cases here
      obtain ⟨one, nodup, above, taken⟩ := sound.single _ _ _ _ attached.dir
      refine ⟨one, ?_, above, taken⟩
      rw [List.map_cons, List.nodup_cons]
      refine ⟨?_, nodup⟩
      intro inside
      obtain ⟨⟨other, y⟩, member, sameName⟩ := List.mem_map.mp inside
      cases sameName
      exact unlisted y member
    · rw [attached.rest t same isNew] at here
      exact sound.single t count b children' here
  alone t t' b one two := by
    have foreign : ∀ s, ∀ c, (∃ listed, body = .dir c listed) → ¬Table fs s c := by
      rintro s c ⟨listed, rfl⟩
      cases fits with
      | dir _ other _ => exact other s
    cases attached.table_back one with
    | inl old =>
      cases attached.table_back two with
      | inl old' => exact sound.alone t t' b old old'
      | inr new' => exact absurd old (foreign t b new'.2)
    | inr new =>
      cases attached.table_back two with
      | inl old' => exact absurd old' (foreign t' b new.2)
      | inr new' => rw [new.1, new'.1]
  owned t b slot' e' c entry covers := by
    rw [attached.bits]
    exact sound.owned _ _ _ _ c (attached.entry_back fits entry) covers
  apart t b slot₁ e₁ t' b' slot₂ e₂ c one two coversOne coversTwo :=
    sound.apart _ _ _ _ _ _ _ _ c (attached.entry_back fits one) (attached.entry_back fits two) coversOne coversTwo
  names t b slot₁ slot₂ e₁ e₂ other one two namedOne namedTwo :=
    sound.names _ _ _ _ _ _ other (attached.entry_back fits one) (attached.entry_back fits two) namedOne namedTwo
  inner t b table notRoot := by
    rw [attached.mount] at notRoot
    cases attached.table_back table with
    | inl old =>
      obtain ⟨p, other, listed⟩ := sound.inner t b old notRoot
      exact ⟨p, other, attached.lists listed⟩
    | inr new =>
      obtain ⟨rfl, _⟩ := new
      exact ⟨d, name, block, _, attached.listing, List.mem_cons_self⟩
  placed t b other i table listed := by
    cases attached.lists_back fits listed with
    | inl old =>
      have oldTable : Table fs t b := by
        obtain ⟨b', children', here, _⟩ := old
        obtain rfl := Table.unique table (attached.table ⟨_, here⟩)
        exact ⟨_, here⟩
      obtain ⟨slot', e', entry, named', node⟩ := sound.placed t b other i oldTable old
      exact ⟨slot', e', attached.entry entry, named', attached.node node⟩
    | inr new =>
      obtain ⟨rfl, rfl, rfl⟩ := new
      obtain rfl := Table.unique table (attached.table ⟨_, attached.dir⟩)
      refine ⟨slot, e, attached.entry entered, named, ?_⟩
      have new := attached.new
      cases fits with
      | reg isdir start dirBlock idx alloc size => exact .reg new isdir start dirBlock idx alloc size
      | dir isdir _ _ => exact .dir new isdir rfl

end Attached

def dropped : Option (Inode n) → Option (Inode n)
  | none => none
  | some inode => if inode.count ≤ 1 then none else some { inode with count := inode.count - 1 }

structure Detached (fs fs' : Mount n m) (d : Fin n) (block : Nat) (children : List (Name × Fin n)) (name : Name)
    (x : Fin n) : Prop where
  dir : IsDir fs d block children
  child : (name, x) ∈ children
  bare : ∀ b, Table fs x b → ∀ slot, (dirent (fs.disk b) slot).used = false
  mount : fs'.mountpoint = fs.mountpoint
  disk : fs'.disk = fs.disk
  bits : fs'.bitmap = fs.bitmap
  listing : fs'.inodes d = some ⟨1, .dir block (children.eraseP fun child => child.1 = name)⟩
  gone : fs'.inodes x = dropped (fs.inodes x)
  rest : ∀ i, i ≠ d → i ≠ x → fs'.inodes i = fs.inodes i

namespace Detached

variable (detached : Detached fs fs' d block children name x) (sound : Layout fs)
include detached

theorem listed : Lists fs d name x := ⟨_, _, detached.dir, detached.child⟩

theorem relisted : Relisted fs fs' d block children (children.eraseP fun child => child.1 = name) x :=
  ⟨detached.dir, detached.listing, detached.rest⟩

include sound

theorem not_dir {children' : List (Name × Fin n)} : fs'.inodes x ≠ some ⟨count, .dir b children'⟩ := by
  intro here
  rw [detached.gone] at here
  cases before : fs.inodes x with
  | none =>
    rw [before] at here
    cases here
  | some inode =>
    rw [before, dropped] at here
    obtain ⟨more, here⟩ := Option.ite_none_left_eq_some.mp here
    rw [Option.some.injEq, Inode.mk.injEq] at here
    have one := (sound.single x inode.count b children' (by rw [before, ← here.2])).1
    omega

theorem ne : x ≠ d := by
  rintro rfl
  exact sound.bare_lists ⟨_, detached.dir⟩ (detached.bare _ ⟨_, detached.dir⟩) detached.listed

theorem table_back (table : Table fs' t b) : Table fs t b ∧ t ≠ x := by
  have other : t ≠ x := by
    rintro rfl
    obtain ⟨children', here⟩ := table
    exact detached.not_dir sound here
  exact ⟨(detached.relisted.table other).mp table, other⟩

theorem lists_back (listed : Lists fs' t other y) : Lists fs t other y ∧ y ≠ x := by
  obtain ⟨b, children', here, inside⟩ := listed
  obtain ⟨_, notGone⟩ := detached.table_back sound ⟨_, here⟩
  rw [IsDir] at here
  by_cases same : t = d
  · subst same
    rw [detached.listing] at here
    cases here
    have before : Lists fs t other y := ⟨_, _, detached.dir, List.mem_of_mem_eraseP inside⟩
    refine ⟨before, ?_⟩
    rintro rfl
    obtain ⟨_, rfl⟩ := sound.listed_once before detached.listed
    -- the first child of that name is the only one, and it has been erased
    exact not_mem_erased (sound.single _ _ _ _ detached.dir).2.1 y inside
  · rw [detached.rest t same notGone] at here
    have before : Lists fs t other y := ⟨_, _, here, inside⟩
    refine ⟨before, ?_⟩
    rintro rfl
    exact same (sound.listed_once before detached.listed).1

theorem lists (before : Lists fs t other y) (kept : y ≠ x) : Lists fs' t other y := by
  obtain ⟨b, children', here, inside⟩ := before
  have notGone : t ≠ x := by
    rintro rfl
    exact sound.bare_lists ⟨_, here⟩ (detached.bare b ⟨_, here⟩) ⟨_, _, here, inside⟩
  by_cases same : t = d
  · subst same
    have dir := detached.dir
    rw [IsDir] at here dir
    rw [here] at dir
    cases dir
    refine ⟨_, _, detached.listing, mem_erased (sound.single _ _ _ _ here).2.1 detached.child inside kept⟩
  · exact ⟨_, _, (detached.rest t same notGone).trans here, inside⟩

theorem entry_back (entry : Entry fs' t b slot e) : Entry fs t b slot e :=
  ⟨(detached.table_back sound entry.table).1, by rw [← detached.disk, entry.here], entry.used⟩

theorem layout : Layout fs' where
  root := by
    rw [detached.mount]
    refine (detached.relisted.table ?_).mpr sound.root
    rintro root
    -- nothing lists the root: its table lies in front of every run
    obtain ⟨slot, e, entry, _, node⟩ := sound.placed d block name x ⟨_, detached.dir⟩ detached.listed
    obtain ⟨isdir, start⟩ := node_table node (root ▸ sound.root)
    have := (sound.owned _ _ _ _ 2 entry (by simp [Dirent.covers, isdir, start])).1
    omega
  single t count b children' here := by
    rw [detached.bits]
    have other : t ≠ x := by
      rintro rfl
      exact detached.not_dir sound here
    by_cases same : t = d
    · subst same
      rw [detached.listing] at here
      cases here
      obtain ⟨one, nodup, above, taken⟩ := sound.single _ _ _ _ detached.dir
      exact ⟨one, List.Nodup.sublist (List.Sublist.map _ List.eraseP_sublist) nodup, above, taken⟩
    · rw [detached.rest t same other] at here
      exact sound.single t count b children' here
  alone t t' b one two := sound.alone t t' b (detached.table_back sound one).1 (detached.table_back sound two).1
  owned t b slot e c entry covers := by
    rw [detached.bits]
    exact sound.owned _ _ _ _ c (detached.entry_back sound entry) covers
  apart t b slot₁ e₁ t' b' slot₂ e₂ c one two coversOne coversTwo :=
    sound.apart _ _ _ _ _ _ _ _ c (detached.entry_back sound one) (detached.entry_back sound two) coversOne coversTwo
  names t b slot₁ slot₂ e₁ e₂ other one two namedOne namedTwo :=
    sound.names _ _ _ _ _ _ other (detached.entry_back sound one) (detached.entry_back sound two) namedOne namedTwo
  inner t b table notRoot := by
    rw [detached.mount] at notRoot
    obtain ⟨before, notGone⟩ := detached.table_back sound table
    obtain ⟨p, other, listed⟩ := sound.inner t b before notRoot
    exact ⟨p, other, detached.lists sound listed notGone⟩
  placed t b other i table listed := by
    obtain ⟨before, notGone⟩ := detached.lists_back sound listed
    obtain ⟨slot, e, entry, named, node⟩ := sound.placed t b other i (detached.table_back sound table).1 before
    exact ⟨slot, e, ⟨table, by rw [detached.disk, entry.here], entry.used⟩, named, detached.relisted.node notGone node⟩

end Detached

end Layout

def opensOf (fs : Mount n m) (i : Fin n) : Nat := (Finset.univ.filter fun f => (fs.files f).map (·.ino) = some i).card

structure Refs (fs : Mount n m) : Prop where
  live : ∀ f c, fs.files f = some c → ∃ count kf, fs.inodes c.ino = some ⟨count, .reg kf⟩
  opens : ∀ i count kf, fs.inodes i = some ⟨count, .reg kf⟩ → opensOf fs i ≤ count
  named : ∀ i count kf p name, fs.inodes i = some ⟨count, .reg kf⟩ → Lists fs p name i → opensOf fs i + 1 ≤ count

namespace Refs

theorem opensOf_congr (inos : ∀ f, (fs'.files f).map (·.ino) = (fs.files f).map (·.ino)) (i : Fin n) :
    opensOf fs' i = opensOf fs i := by simp only [opensOf, inos]

theorem opensOf_zero (refs : Refs fs) (missing : ∀ count kf, fs.inodes i ≠ some ⟨count, .reg kf⟩) :
    opensOf fs i = 0 := by
  rw [opensOf, Finset.card_eq_zero, Finset.filter_eq_empty_iff]
  intro f _ here
  obtain ⟨c, opened, rfl⟩ := Option.map_eq_some_iff.mp here
  obtain ⟨count, kf, there⟩ := refs.live f c opened
  exact missing count kf there

theorem not_open (none : opensOf fs x = 0) {f : Fin m} {c : Cursor n} (opened : fs.files f = some c) : c.ino ≠ x := by
  rintro rfl
  rw [opensOf, Finset.card_eq_zero, Finset.filter_eq_empty_iff] at none
  exact none (Finset.mem_univ f) (by rw [opened, Option.map_some])

/-- Steps in which the counts go with the open files. -/
theorem balance (refs : Refs fs) (live : ∀ f c, fs'.files f = some c →
    ∃ count kf, fs'.inodes c.ino = some ⟨count, .reg kf⟩) (counts : ∀ i count kf, fs'.inodes i = some ⟨count, .reg kf⟩ →
      ∃ before kf', fs.inodes i = some ⟨before, .reg kf'⟩ ∧ before + opensOf fs' i = count + opensOf fs i)
    (lists : ∀ p name i, Lists fs' p name i → Lists fs p name i) : Refs fs' where
  live := live
  opens i count kf here := by
    obtain ⟨before, kf', there, same⟩ := counts i count kf here
    have counted := refs.opens i before kf' there
    omega
  named i count kf p name here listed := by
    obtain ⟨before, kf', there, same⟩ := counts i count kf here
    have counted := refs.named i before kf' p name there (lists p name i listed)
    omega

theorem keep (refs : Refs fs) (inos : ∀ f, (fs'.files f).map (·.ino) = (fs.files f).map (·.ino))
    (regs : ∀ i count, (∃ kf, fs'.inodes i = some ⟨count, .reg kf⟩) ↔ ∃ kf, fs.inodes i = some ⟨count, .reg kf⟩)
    (lists : ∀ p name i, Lists fs' p name i → Lists fs p name i) : Refs fs' := by
  refine refs.balance (fun f c opened => ?_) (fun i count kf here => ?_) lists
  · have ino := inos f
    rw [opened, Option.map_some] at ino
    obtain ⟨c', before, same⟩ := Option.map_eq_some_iff.mp ino.symm
    obtain ⟨count, kf, here⟩ := refs.live f c' before
    obtain ⟨kf', now⟩ := (regs c.ino count).mpr ⟨kf, same ▸ here⟩
    exact ⟨count, kf', now⟩
  · obtain ⟨kf', before⟩ := (regs i count).mp ⟨kf, here⟩
    exact ⟨count, kf', before, by rw [opensOf_congr inos]⟩

theorem attach {body : Body n} (refs : Refs fs) (files : fs'.files = fs.files)
    (attached : Layout.Attached fs fs' d block children name x body) (fits : Layout.Fits fs block slot e body) :
    Refs fs' := by
  have sameOpens : ∀ i, opensOf fs' i = opensOf fs i := opensOf_congr fun f => by rw [files]
  have newOpens : opensOf fs x = 0 := refs.opensOf_zero fun count kf here => by
    rw [attached.fresh] at here
    cases here
  constructor
  · intro f c opened
    rw [files] at opened
    obtain ⟨count, kf, here⟩ := refs.live f c opened
    exact ⟨count, kf, (attached.relisted.reg (attached.old_ne here)).mpr here⟩
  · intro i count kf here
    rw [sameOpens]
    by_cases isNew : i = x
    · rw [isNew, newOpens]
      exact Nat.zero_le _
    · exact refs.opens i count kf ((attached.relisted.reg isNew).mp here)
  · intro i count kf p other here listed
    rw [sameOpens]
    by_cases isNew : i = x
    · subst isNew
      rw [attached.new] at here
      cases here
      rw [newOpens]
    · cases attached.lists_back fits listed with
      | inl before => exact refs.named i count kf p other ((attached.relisted.reg isNew).mp here) before
      | inr new => exact absurd new.2.2 isNew

theorem drop_reg {before : Option (Inode n)} {kf : KfsFile} (here : Layout.dropped before = some ⟨count, .reg kf⟩) :
    before = some ⟨count + 1, .reg kf⟩ := by
  cases before with
  | none => cases here
  | some inode =>
    obtain ⟨more, here⟩ := Option.ite_none_left_eq_some.mp here
    cases inode with
    | mk count' body =>
      cases here
      simp only [Option.some.injEq, Inode.mk.injEq, and_true]
      dsimp only at more
      omega

theorem detach (refs : Refs fs) (sound : Layout fs) (files : fs'.files = fs.files)
    (detached : Layout.Detached fs fs' d block children name x) : Refs fs' := by
  have sameOpens : ∀ i, opensOf fs' i = opensOf fs i := opensOf_congr fun f => by rw [files]
  constructor
  · intro f c opened
    rw [files] at opened
    obtain ⟨count, kf, here⟩ := refs.live f c opened
    by_cases gone : c.ino = x
    · have listed := detached.listed
      rw [← gone] at listed
      have counted := refs.named _ _ _ _ _ here listed
      have isOpen : opensOf fs c.ino ≠ 0 := fun zero => not_open zero opened rfl
      refine ⟨count - 1, kf, ?_⟩
      rw [gone, detached.gone, ← gone, here, Layout.dropped, if_neg (by dsimp only; omega)]
    · exact ⟨count, kf, (detached.relisted.reg gone).mpr here⟩
  · intro i count kf here
    rw [sameOpens]
    by_cases gone : i = x
    · subst gone
      rw [detached.gone] at here
      have counted := refs.named _ _ _ _ _ (drop_reg here) detached.listed
      omega
    · exact refs.opens i count kf ((detached.relisted.reg gone).mp here)
  · intro i count kf p other here listed
    rw [sameOpens]
    obtain ⟨before, notGone⟩ := detached.lists_back sound listed
    exact refs.named i count kf p other ((detached.relisted.reg notGone).mp here) before

end Refs

end Kappara.Fs
