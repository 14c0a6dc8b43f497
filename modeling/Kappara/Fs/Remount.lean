import Kappara.Fs.Ownership

/-! Mounting the device again.

The dentries a mount builds from the tables of the disk are those of the tree in
memory: every path leads to the same file or directory, or to nothing in both. -/

set_option autoImplicit false

namespace Kappara.Fs

variable {n m : Nat} {fs : Mount n m}

inductive Shape where
  | file (kf : KfsFile)
  | dir (block : Nat)
  deriving DecidableEq

def Inode.shape (inode : Inode n) : Shape :=
  match inode.body with
  | .reg kf => .file kf
  | .dir block _ => .dir block

-- What a path from an inode leads to.
def walkShape (fs : Mount n m) (at_ : Fin n) (path : List Name) : Option Shape :=
  (vfsWalk fs at_ path).bind fun i => (fs.inodes i).map (·.shape)

def shapeAt (fs : Mount n m) (path : List Name) : Option Shape := walkShape fs fs.mountpoint path

-- The same walk over dentries that no inodes stand for yet.
def Dentries.look : Dentries → Name → List Name → Option Shape
  | .nil, _, _ => none
  | .reg name kf sibling, first, rest =>
    if name = first then if rest = [] then some (.file kf) else none else sibling.look first rest
  | .dir name block child sibling, first, rest =>
    if name = first then
      match rest with
      | [] => some (.dir block)
      | second :: rest => child.look second rest
    else sibling.look first rest

/-- The device has been mounted with kfs_mount, and nothing done since. -/
def Remounted (disk : Nat → Block) (depth : Nat) (fresh : Mount n m) : Prop :=
  ∃ listed children, kfsMount disk depth = some (fresh.bitmap, listed) ∧ fresh.disk = disk ∧
    fresh.inodes fresh.mountpoint = some ⟨1, .dir 2 children⟩ ∧ listed.stand fresh children

variable {listed : Dentries} {slots : List (Fin 26)}

section Walks

variable {d i : Fin n} {count block : Nat} {children : List (Name × Fin n)} {kf : KfsFile} {first : Name}
  {rest : List Name}

theorem walkShape_nil {inode : Inode n} (here : fs.inodes i = some inode) : walkShape fs i [] = some inode.shape := by
  simp [walkShape, vfsWalk, here]

theorem walkShape_dir (dir : fs.inodes d = some ⟨count, .dir block children⟩) :
    walkShape fs d (first :: rest) = (findChild children first).bind fun i => walkShape fs i rest := by
  rw [walkShape, vfsWalk, dir]
  dsimp only
  cases findChild children first <;> rfl

theorem walkShape_reg (here : fs.inodes i = some ⟨count, .reg kf⟩) :
    walkShape fs i rest = if rest = [] then some (.file kf) else none := by
  cases rest with
  | nil => exact walkShape_nil here
  | cons first rest => simp [walkShape, vfsWalk, here]

theorem findChild_cons (name : Name) (i : Fin n) (children : List (Name × Fin n)) (first : Name) :
    findChild ((name, i) :: children) first = if name = first then some i else findChild children first := by
  by_cases same : name = first <;> simp [findChild, same]

section
variable (name : Name) (block : Nat) (child sibling : Dentries)

theorem look_dir_nil : (Dentries.dir name block child sibling).look name [] = some (.dir block) := by
  simp [Dentries.look]

theorem look_dir_cons (second : Name) (rest : List Name) :
    (Dentries.dir name block child sibling).look name (second :: rest) = child.look second rest := by
    simp [Dentries.look]

theorem look_dir_ne {first : Name} (other : name ≠ first) (rest : List Name) :
    (Dentries.dir name block child sibling).look first rest = sibling.look first rest := by
  cases rest <;> simp [Dentries.look, other]

end

theorem Dentries.stand_look (stands : listed.stand fs children) (first : Name) (rest : List Name) :
    ((findChild children first).bind fun i => walkShape fs i rest) = listed.look first rest := by
  induction listed generalizing children first rest with
  | nil =>
    cases stands
    rfl
  | reg name kf sibling ih =>
    obtain ⟨i, others, rfl, here, behind⟩ := stands
    rw [findChild_cons, Dentries.look]
    split
    · exact walkShape_reg here
    · exact ih behind first rest
  | dir name block child sibling ihChild ihSibling =>
    obtain ⟨i, others, inner, rfl, here, below, behind⟩ := stands
    rw [findChild_cons]
    by_cases same : name = first
    · subst same
      rw [if_pos rfl]
      cases rest with
      | nil => exact (walkShape_nil here).trans (look_dir_nil name block child sibling).symm
      | cons second rest =>
        rw [look_dir_cons]
        exact (walkShape_dir here).trans (ihChild below second rest)
    · rw [if_neg same, look_dir_ne _ _ _ _ same]
      exact ihSibling behind first rest

end Walks

section Levels

variable {i : Fin n} {k l : Nat}

theorem Rooted.above (rooted : Rooted fs k i) (l : Nat) (higher : l ≤ k) : ∃ j, Rooted fs l j := by
  induction rooted with
  | root =>
    obtain rfl := Nat.le_zero.mp higher
    exact ⟨_, .root⟩
  | @child level d i name above listed ih =>
    by_cases same : l = level + 1
    · subst same
      exact ⟨i, .child above listed⟩
    · exact ih (by omega)

variable (sound : Layout fs)
include sound

theorem root_unlisted (p : Fin n) (name : Name) : ¬Lists fs p name fs.mountpoint := by
  intro listed
  obtain ⟨block, children, dir, _⟩ := id listed
  obtain ⟨slot, e, entry, _, node⟩ := sound.placed p block name _ ⟨_, dir⟩ listed
  obtain ⟨isdir, start⟩ := Layout.node_table node sound.root
  have := (sound.owned _ _ _ _ 2 entry (by simp [Dirent.covers, isdir, start])).1
  omega

theorem Rooted.level (one : Rooted fs k i) (two : Rooted fs l i) : k = l := by
  induction one generalizing l with
  | root =>
    cases two with
    | root => rfl
    | child _ listed => exact absurd listed (root_unlisted sound _ _)
  | child _ listed ih =>
    cases two with
    | root => exact absurd listed (root_unlisted sound _ _)
    | child above listed' =>
      obtain ⟨rfl, _⟩ := sound.listed_once listed listed'
      rw [ih above]

/-- Every level holds another inode, so there are fewer levels than inodes. -/
theorem Rooted.lt (rooted : Rooted fs k i) : k < n := by
  by_contra deep
  have each : ∀ l : Fin (n + 1), ∃ j, Rooted fs l.val j := fun l => rooted.above l.val (by omega)
  choose node there using each
  have injective : Function.Injective node := by
    intro l l' same
    have other := there l'
    rw [← same] at other
    exact Fin.ext ((there l).level sound other)
  have few := Fintype.card_le_of_injective node injective
  simp at few

end Levels

section Agreement

variable {disk : Nat → Block} {below : Nat → Dentries} {block : Nat} {first : Name} {rest : List Name}

theorem look_others
    (others : ∀ slot ∈ slots, (dirent (disk block) slot).used = true → (dirent (disk block) slot).text ≠ first) :
    (slots.foldl (mountSlot disk below block) listed).look first rest = listed.look first rest := by
  induction slots generalizing listed with
  | nil => rfl
  | cons slot slots ih =>
    rw [List.foldl_cons, ih fun other inside => others other (List.mem_cons_of_mem slot inside), mountSlot]
    have own := others slot List.mem_cons_self
    split
    next used =>
      split
      · exact look_dir_ne _ _ _ _ (own used) rest
      · rw [Dentries.look, if_neg (own used)]
    · rfl

/-- One entry of a name decides what the name leads to. -/
theorem look_slot {slot : Fin 26} (inside : slot ∈ slots)
    (used : (dirent (disk block) slot).used = true) (text : (dirent (disk block) slot).text = first)
    (unique : ∀ other, (dirent (disk block) other).used = true → (dirent (disk block) other).text = first →
    other = slot) : (slots.foldl (mountSlot disk below block) listed).look first rest =
      (mountSlot disk below block .nil slot).look first rest := by
  induction slots generalizing listed with
  | nil => cases inside
  | cons head slots ih =>
    rw [List.foldl_cons]
    by_cases later : slot ∈ slots
    · exact ih later
    · obtain rfl : slot = head := (List.mem_cons.mp inside).resolve_right later
      rw [look_others]
      · simp only [mountSlot, used, if_true]
        split <;> simp only [Dentries.look, text, if_true]
      · intro other there used' text'
        exact later (unique other used' text' ▸ there)

/-- A directory that deep in the tree and the walk over its table. -/
theorem mountDir_agrees {lost : Nat → Prop} (sound : Sound fs) (whole : Exact lost fs) {depth level : Nat} {d : Fin n}
    {count : Nat} {children : List (Name × Fin n)} (dir : fs.inodes d = some ⟨count, .dir block children⟩)
    (rooted : Rooted fs level d) (deep : n ≤ level + depth) (first : Name) (rest : List Name) :
    (kfsMountDir fs.disk depth block).look first rest = walkShape fs d (first :: rest) := by
  induction depth generalizing d level block count children first rest with
  | zero =>
    have := rooted.lt sound.toLayout
    omega
  | succ depth ih =>
    obtain ⟨rfl, names, _⟩ := sound.single _ _ _ _ dir
    have table : Table fs d block := ⟨_, dir⟩
    -- a used entry stands under the name of a child
    have child : ∀ slot, (dirent (fs.disk block) slot).used = true →
        ∃ i, ((dirent (fs.disk block) slot).text, i) ∈ children ∧
          (dirent (fs.disk block) slot).named (dirent (fs.disk block) slot).text = true := by
      intro slot used
      obtain ⟨name, i, ⟨b, children', dir', inside⟩, named⟩ := whole.listed d block slot _ ⟨table, rfl, used⟩
      rw [IsDir, dir] at dir'
      cases dir'
      rw [Dirent.text_of_named named]
      exact ⟨i, inside, named⟩
    rw [walkShape_dir dir, kfsMountDir]
    cases found : findChild children first with
    | none =>
      refine look_others fun slot _ used text => ?_
      obtain ⟨i, inside, _⟩ := child slot used
      exact findChild_none found i (text ▸ inside)
    | some i =>
      have listed : Lists fs d first i := ⟨_, _, dir, findChild_mem found⟩
      obtain ⟨slot, e, entry, named, node⟩ := sound.placed d block first i table listed
      obtain rfl := entry.here
      have text := Dirent.text_of_named named
      rw [look_slot (List.mem_finRange slot) entry.used text]
      · simp only [mountSlot, entry.used, if_true, Option.bind_some]
        cases node with
        | @reg count kf at_ file start dirBlock idx alloc =>
          have size := whole.sized _ _ _ _ _ listed at_
          rw [if_neg (by simp [file]), Dentries.look, if_pos text, walkShape_reg at_]
          have record : (dirent (fs.disk block) slot).file block slot = kf := by
            cases kf
            simp_all [Dirent.file]
          rw [record]
        | dir at_ isdir start =>
          rw [if_pos isdir, start, text]
          cases rest with
          | nil => exact (look_dir_nil ..).trans (walkShape_nil at_).symm
          | cons second rest =>
            rw [look_dir_cons]
            exact ih at_ (.child rooted listed) (by omega) second rest
      · intro other used' text'
        obtain ⟨_, _, named'⟩ := child other used'
        rw [text'] at named'
        exact sound.names _ _ _ _ _ _ first ⟨table, rfl, used'⟩ entry named' named

/-- The two mounts show one tree, and reads of its files give the same bytes. -/
structure SameTree {k l : Nat} (fresh : Mount k l) (fs : Mount n m) : Prop where
  shapes : ∀ path, shapeAt fresh path = shapeAt fs path
  reads : ∀ path kf, shapeAt fs path = some (.file kf) → ∀ g f j i pos len,
    (regfileRead fresh g ⟨j, pos⟩ kf len).1 = (regfileRead fs f ⟨i, pos⟩ kf len).1

/-- After every run in which memory lasts and no open file is unlinked, a fresh mount of the device
finds the tree of the live one, where no two payloads had the same name. -/
theorem remount_agrees_when_named {nblocks depth : Nat} {payloads : List Payload} (fits : fitsDevice nblocks payloads)
    (apart : namesApart payloads) (reached : Run.Reach step orderly (Imaged nblocks payloads) fs) (deep : n ≤ depth) :
    ∃ listed, kfsMount fs.disk depth = some (bitmapOf (fs.disk 1), listed) ∧
      (∀ first rest, listed.look first rest = shapeAt fs (first :: rest)) ∧
      ∀ (k l : Nat) (fresh : Mount k l), Remounted fs.disk depth fresh → SameTree fresh fs := by
  obtain ⟨sound, whole⟩ := @reached_exact _ _ fs _ _ (fun _ => True) fits apart (fun _ _ _ _ => trivial) reached
  obtain ⟨children, root⟩ := sound.root
  have mounted : kfsMount fs.disk depth = some (bitmapOf (fs.disk 1), kfsMountDir fs.disk depth 2) := if_pos whole.magic
  have agrees : ∀ first rest, (kfsMountDir fs.disk depth 2).look first rest = shapeAt fs (first :: rest) :=
    mountDir_agrees sound whole root .root (by omega)
  refine ⟨_, mounted, agrees, ?_⟩
  rintro k l fresh ⟨listed, children', mounted', disk, root', stands⟩
  rw [mounted] at mounted'
  obtain ⟨_, rfl⟩ : bitmapOf (fs.disk 1) = fresh.bitmap ∧ kfsMountDir fs.disk depth 2 = listed := by
    simpa using mounted'
  constructor
  · intro path
    cases path with
    | nil => exact (walkShape_nil root').trans (walkShape_nil root).symm
    | cons first rest =>
      rw [← agrees, ← Dentries.stand_look stands]
      exact walkShape_dir root'
  · intro _ kf _ g f j i pos len
    rw [regfileRead, regfileRead, disk]
    split <;> rfl

/-- In every such run the directories form a tree. -/
theorem names_form_tree {nblocks : Nat} {payloads : List Payload} (fits : fitsDevice nblocks payloads)
    (apart : namesApart payloads) (reached : Run.Reach step orderly (Imaged nblocks payloads) fs) :
    (∀ p q name other i, Lists fs p name i → Lists fs q other i → p = q ∧ name = other) ∧
      (∀ p name, ¬Lists fs p name fs.mountpoint) ∧ ∀ d block, Table fs d block → ∃ level < n, Rooted fs level d := by
  obtain ⟨sound, whole⟩ := @reached_exact _ _ fs _ _ (fun _ => True) fits apart (fun _ _ _ _ => trivial) reached
  refine ⟨fun _ _ _ _ _ => sound.listed_once, root_unlisted sound.toLayout, fun d block table => ?_⟩
  obtain ⟨level, rooted⟩ := whole.rooted d block table
  exact ⟨level, rooted.lt sound.toLayout, rooted⟩

end Agreement

section Examples

theorem remount_agrees_when_named_busy : ∃ fs : Mount 5 2, Run.Reach step orderly (Imaged 300 (pairTable fileB)) fs ∧
    shapeAt fs [sub, fileA] = some (.file ⟨132, 2, 64, 131, 0⟩) ∧
    ∃ listed, kfsMount fs.disk 5 = some (bitmapOf (fs.disk 1), listed) ∧
      (∀ first rest, listed.look first rest = shapeAt fs (first :: rest)) ∧
      ∀ (k l : Nat) (fresh : Mount k l), Remounted fs.disk 5 fresh → SameTree fresh fs := by
  refine Run.Reach.found_with (fun fs reached => ?_) busyRun named_imaged (by decide +kernel)
  exact remount_agrees_when_named (by decide) (by decide) reached (Nat.le_refl 5)

theorem names_form_tree_busy : ∃ fs : Mount 5 2, Run.Reach step orderly (Imaged 300 (pairTable fileB)) fs ∧
    vfsLookup fs [sub, fileA] = some 4 ∧
    (∀ p q name other i, Lists fs p name i → Lists fs q other i → p = q ∧ name = other) ∧
    (∀ p name, ¬Lists fs p name fs.mountpoint) ∧ ∀ d block, Table fs d block → ∃ level < 5, Rooted fs level d :=
  Run.Reach.found_with (fun _ => names_form_tree (by decide) (by decide)) busyRun named_imaged (by decide +kernel)

/-- Unlink takes the entry of the first payload and the dentry of the second. -/
theorem twin_payloads_part : fitsDevice 300 (pairTable fileA) ∧
    ∃ fs : Mount 5 2, Run.Reach step orderly (Imaged 300 (pairTable fileA)) fs ∧
      ∃ fresh : Mount 5 2, Remounted fs.disk 5 fresh ∧ ¬SameTree fresh fs := by
  obtain ⟨fs, reached, magic, listed, live⟩ :
    ∃ fs : Mount 5 2, Run.Reach step orderly (Imaged 300 (pairTable fileA)) fs ∧
      Records.word32 (fs.disk 0 0) (fs.disk 0 1) (fs.disk 0 2) (fs.disk 0 3) = kfsMagic ∧
      kfsMountDir fs.disk 5 2 = .reg fileA ⟨67, 1, 64, 2, 1⟩ .nil ∧
        shapeAt fs [fileA] = some (.file ⟨3, 1, 64, 2, 0⟩) :=
    Run.Reach.found [.unlink [] fileA] twins_imaged (by decide +kernel)
  refine ⟨by decide, fs, reached, freshMount fs, ⟨_, [(fileA, 1)], if_pos magic, rfl, rfl, ?_⟩, ?_⟩
  · rw [listed]
    exact ⟨1, _, rfl, rfl, rfl⟩
  · intro same
    have shapes := same.shapes [fileA]
    have fresh : shapeAt (freshMount fs) [fileA] = some (.file ⟨67, 1, 64, 2, 1⟩) := rfl
    rw [live, fresh] at shapes
    exact absurd shapes (by decide)

end Examples

end Kappara.Fs
