import Kappara.Fs.Interference

/-! Making a kfs image from a table of payloads, and mounting what a device holds.

The payloads lie one run after the other behind the root table. A mount reads the
bitmap and turns the used entries of every table into dentries; the dentries it
builds are kept here as the lists of siblings that they are, and the inodes of a
mounted file system stand for them. -/

set_option autoImplicit false

namespace Kappara.Fs

variable {n m : Nat}

section Mkimage

structure Payload where
  name : Name
  data : List Byte

-- KFS_MAGIC
def kfsMagic : BitVec 32 := 0x024b4653#32

def superBlock (numFiles : Nat) : Block := fun k =>
  if k.val < 4 then Records.wordByte kfsMagic k
  else if k.val < 8 then Records.wordByte (BitVec.ofNat 32 numFiles) (k - 4)
  else 0

-- What the loop over the payloads has written, with the table and the bitmap it builds.
structure Image where
  disk : Nat → Block
  bitmap : Nat → Bool
  table : Block

def payloadRun (disk : Nat → Block) (start : Nat) (data : List Byte) : Nat → (Nat → Block)
  | 0 => disk
  | count + 1 => bdWriteBlock (payloadRun disk start data count) (start + count) fun k => data.getD (512 * count + k) 0

def payloadDirent (p : Payload) (slot : Fin 26) : Dirent :=
  { newDirent p.name (3 + 64 * slot) 0 with sizeBytes := BitVec.ofNat 32 p.data.length }

def Image.put (image : Image) (p : Payload) (slot : Fin 26) : Image where
  disk := payloadRun image.disk (3 + 64 * slot) p.data 64
  bitmap := kfsBitSetRun image.bitmap (3 + 64 * slot) true 64
  table := setDirent image.table slot (payloadDirent p slot)

def Image.putAll (payloads : List Payload) (image : Image) (slots : List (Fin 26)) : Image :=
  slots.foldl (fun image slot =>
    match payloads[slot.val]? with
    | none => image
    | some p => image.put p slot) image

-- The device after kfs_mkimage; the bitmap is read back by the mount.
def mkimagePayloads (disk : Nat → Block) (payloads : List Payload) : Nat → Block :=
  let reserved : Image := ⟨bdWriteBlock disk 0 (superBlock payloads.length), kfsBitSetRun (fun _ => false) 0 true 3,
    fun _ => 0⟩
  let image := reserved.putAll payloads (List.finRange 26)
  bdWriteBlock (bdWriteBlock image.disk 2 image.table) 1 (bitmapBlock image.bitmap)

end Mkimage

section Mount

def bitmapOf (block : Block) (b : Nat) : Bool := decide (b < 4096) && (block (Fin.ofNat 512 (b / 8))).getLsbD (b % 8)

-- d_child and d_sibling: the newest child stands first.
inductive Dentries where
  | nil
  | reg (name : Name) (kf : KfsFile) (sibling : Dentries)
  | dir (name : Name) (block : Nat) (child sibling : Dentries)
  deriving DecidableEq

-- kfs_dup_name
def Dirent.text (e : Dirent) : Name where
  bytes := ((List.ofFn e.name).take 10).takeWhile (· != 0)
  text inside := by simpa using List.all_eq_true.mp List.all_takeWhile 0 inside

-- One entry of the walk over a table; below is what the walk of a subdirectory gives.
def mountSlot (disk : Nat → Block) (below : Nat → Dentries) (block : Nat) (listed : Dentries) (slot : Fin 26) :
    Dentries :=
  let e := dirent (disk block) slot
  if e.used then
    if e.isdir then .dir e.text e.start (below e.start) listed else .reg e.text (e.file block slot) listed
  else listed

-- The walk goes at most depth directories down.
def kfsMountDir (disk : Nat → Block) : Nat → Nat → Dentries
  | 0, _ => .nil
  | depth + 1, block => (List.finRange 26).foldl (mountSlot disk (kfsMountDir disk depth) block) .nil

def kfsMount (disk : Nat → Block) (depth : Nat) : Option ((Nat → Bool) × Dentries) :=
  if Records.word32 (disk 0 0) (disk 0 1) (disk 0 2) (disk 0 3) = kfsMagic then
    some (bitmapOf (disk 1), kfsMountDir disk depth 2)
  else none

/-- The children of a directory are the inodes behind these dentries. -/
def Dentries.stand (fs : Mount n m) : Dentries → List (Name × Fin n) → Prop
  | .nil, children => children = []
  | .reg name kf sibling, children =>
    ∃ i rest, children = (name, i) :: rest ∧ fs.inodes i = some ⟨1, .reg kf⟩ ∧ sibling.stand fs rest
  | .dir name block child sibling, children =>
    ∃ i rest inner, children = (name, i) :: rest ∧ fs.inodes i = some ⟨1, .dir block inner⟩ ∧ child.stand fs inner ∧
      sibling.stand fs rest

/-- The file system mounted right after kfs_mkimage. The image has no subdirectories, so the inodes
are the mountpoint and those of the files, each allocated once. -/
structure Imaged (nblocks : Nat) (payloads : List Payload) (fs : Mount n m) : Prop where
  device : fs.nblocks = nblocks
  image : ∃ disk, fs.disk = mkimagePayloads disk payloads
  mounted : ∃ listed children, kfsMount fs.disk n = some (fs.bitmap, listed) ∧
    fs.inodes fs.mountpoint = some ⟨1, .dir 2 children⟩ ∧ listed.stand fs children ∧
    (fs.mountpoint :: children.map (·.2)).Nodup ∧ ∀ i, fs.inodes i ≠ none → i ∈ fs.mountpoint :: children.map (·.2)
  closed : ∀ f, fs.files f = none

end Mount

section Bitmap

theorem byte_bits : ∀ b₀ b₁ b₂ b₃ b₄ b₅ b₆ b₇ : Bool, ∀ j : Fin 8,
    (BitVec.ofNat 8 ([if b₀ then 1 else 0, if b₁ then 2 else 0, if b₂ then 4 else 0, if b₃ then 8 else 0,
      if b₄ then 16 else 0, if b₅ then 32 else 0, if b₆ then 64 else 0, if b₇ then 128 else 0] : List Nat).sum).getLsbD
        j = [b₀, b₁, b₂, b₃, b₄, b₅, b₆, b₇].get j := by
  decide +kernel

theorem bitmapOf_bitmapBlock (bitmap : Nat → Bool) {b : Nat} (below : b < 4096) :
    bitmapOf (bitmapBlock bitmap) b = bitmap b := by
  have place : (Fin.ofNat 512 (b / 8)).val = b / 8 := Nat.mod_eq_of_lt (by omega)
  have small : b % 8 < 8 := Nat.mod_lt b (by decide)
  let at_ (j : Nat) := bitmap (8 * (b / 8) + j)
  have bits := byte_bits (at_ 0) (at_ 1) (at_ 2) (at_ 3) (at_ 4) (at_ 5) (at_ 6) (at_ 7) ⟨b % 8, small⟩
  have found : [at_ 0, at_ 1, at_ 2, at_ 3, at_ 4, at_ 5, at_ 6, at_ 7].get ⟨b % 8, small⟩ = bitmap b := by
    have listed : [at_ 0, at_ 1, at_ 2, at_ 3, at_ 4, at_ 5, at_ 6, at_ 7] = (List.range 8).map at_ := rfl
    refine (List.getElem_of_eq listed small).trans ?_
    rw [List.getElem_map, List.getElem_range]
    exact congrArg bitmap (Nat.div_add_mod b 8)
  rw [bitmapOf, decide_eq_true below, ← found, ← bits, bitmapBlock, place]
  rfl

end Bitmap

section Payloads

-- The name as the table has room for it.
def Payload.cut (p : Payload) : Name := ⟨p.name.bytes.take 10, fun inside => p.name.text (List.mem_of_mem_take inside)⟩

-- No two payloads get one name in the table.
def namesApart (payloads : List Payload) : Prop := payloads.Pairwise fun p q => p.cut = q.cut → p.cut.bytes = []

instance (payloads : List Payload) : Decidable (namesApart payloads) := inferInstanceAs (Decidable (List.Pairwise _ _))

theorem namesApart.index {payloads : List Payload} (apart : namesApart payloads) {j k : Nat} {p q : Payload}
    (one : payloads[j]? = some p) (two : payloads[k]? = some q) (same : p.cut = q.cut) (text : p.cut.bytes ≠ []) :
    j = k := by
  obtain ⟨inside, rfl⟩ := List.getElem?_eq_some_iff.mp one
  obtain ⟨inside', rfl⟩ := List.getElem?_eq_some_iff.mp two
  have pairs := List.pairwise_iff_getElem.mp apart
  rcases Nat.lt_trichotomy j k with less | equal | more
  · exact absurd (pairs j k inside inside' less same) text
  · exact equal
  · exact absurd (pairs k j inside' inside more same.symm) (same ▸ text)

-- The payloads the root table, a run each and the device have room for.
def fitsDevice (nblocks : Nat) (payloads : List Payload) : Prop :=
  payloads.length ≤ 26 ∧ (∀ p ∈ payloads, p.data.length ≤ 32768) ∧ 3 + 64 * payloads.length ≤ nblocks

instance (nblocks : Nat) (payloads : List Payload) : Decidable (fitsDevice nblocks payloads) :=
  inferInstanceAs (Decidable (_ ∧ _))

theorem takeWhile_take (bytes : List Byte) (k : Nat) :
    (bytes.take k).takeWhile (· != 0) = (bytes.takeWhile (· != 0)).take k := by
  induction bytes generalizing k with
  | nil => simp
  | cons first rest ih =>
    cases k with
    | zero => simp
    | succ k =>
      by_cases zero : first = 0
      · simp [zero]
      · have text : (first != 0) = true := by simpa using zero
        simp only [List.take_succ_cons, List.takeWhile_cons, text, if_true, ih]

theorem Dirent.text_of_named {e : Dirent} {name : Name} (named : e.named name = true) : e.text = name := by
  simp only [Dirent.named, Bool.and_eq_true, beq_iff_eq, decide_eq_true_eq] at named
  cases name with
  | mk bytes zeroFree =>
    simp only [Dirent.text, Name.mk.injEq, takeWhile_take, named.1]
    exact List.take_of_length_le (Nat.le_of_lt_succ named.2)

theorem newDirent_cut (p : Payload) (start : Nat) (tag : BitVec 32) :
    newDirent p.name start tag = newDirent p.cut start tag := by
  simp [newDirent, Payload.cut, List.take_take]

section
variable (p : Payload) (slot : Fin 26)

theorem payloadDirent_same : (newDirent p.cut (3 + 64 * slot) 0).Same (payloadDirent p slot) := by
  rw [← newDirent_cut]
  exact ⟨rfl, rfl⟩

theorem payload_cut_short : p.cut.bytes.length < 11 := by
  have := List.length_take_le 10 p.name.bytes
  simp only [Payload.cut]
  omega

theorem payloadDirent_named : (payloadDirent p slot).named p.cut = true := by
  rw [(payloadDirent_same p slot).named, newDirent_named _ _ (payload_cut_short p)]

theorem payloadDirent_used : (payloadDirent p slot).used = true ↔ p.cut.bytes ≠ [] := by
  rw [(payloadDirent_same p slot).used]
  constructor
  · intro used empty
    rw [Dirent.used, newDirent_bytes _ _ _ (payload_cut_short p), empty] at used
    cases used
  · exact newDirent_used _ _ (payload_cut_short p)

theorem payloadDirent_isdir : (payloadDirent p slot).isdir = false :=
  (payloadDirent_same p slot).isdir.trans (newDirent_isdir p.cut false (by omega))

theorem payloadDirent_start : (payloadDirent p slot).start = 3 + 64 * slot :=
  (payloadDirent_same p slot).start.trans (newDirent_start p.cut false (by omega))

end

section

variable (payloads : List Payload) (image : Image) (slots : List (Fin 26))

theorem putAll_dirent (slot : Fin 26) :
    dirent (image.putAll payloads slots).table slot =
      if slot ∈ slots then ((payloads[slot.val]?).map (payloadDirent · slot)).getD (dirent image.table slot)
      else dirent image.table slot := by
  induction slots generalizing image with
  | nil => rfl
  | cons first rest ih =>
    rw [Image.putAll, List.foldl_cons, ← Image.putAll, ih]
    by_cases same : slot = first
    · subst same
      cases given : payloads[slot.val]? <;> simp [Image.put]
    · cases given : payloads[first.val]? <;> simp [Image.put, same, dirent_setDirent_of_ne _ _ same]

theorem payloadRun_below (disk : Nat → Block) (data : List Byte) {start b : Nat} (count : Nat) (below : b < start) :
    payloadRun disk start data count b = disk b := by
  induction count with
  | zero => rfl
  | succ count ih => rw [payloadRun, bdWriteBlock, Function.update_of_ne (by omega), ih]

theorem putAll_disk {b : Nat} (below : b < 3) :
    (image.putAll payloads slots).disk b = image.disk b := by
  induction slots generalizing image with
  | nil => rfl
  | cons first rest ih =>
    rw [Image.putAll, List.foldl_cons, ← Image.putAll, ih]
    cases given : payloads[first.val]? with
    | none => rfl
    | some p => exact payloadRun_below _ _ _ (by omega)

theorem putAll_bitmap (b : Nat) :
    (image.putAll payloads slots).bitmap b = true ↔ image.bitmap b = true ∨
      ∃ slot ∈ slots, slot.val < payloads.length ∧ 3 + 64 * slot.val ≤ b ∧ b < 3 + 64 * slot.val + 64 := by
  induction slots generalizing image with
  | nil => simp [Image.putAll]
  | cons first rest ih =>
    rw [Image.putAll, List.foldl_cons, ← Image.putAll, ih]
    cases given : payloads[first.val]? with
    | none =>
      have missing : ¬first.val < payloads.length := by simpa using given
      simp [missing]
    | some p =>
      have there : first.val < payloads.length := (List.getElem?_eq_some_iff.mp given).1
      simp only [Image.put, kfsBitSetRun_apply, List.exists_mem_cons_iff, there, true_and]
      by_cases here : 3 + 64 * first.val ≤ b ∧ b < 3 + 64 * first.val + 64
      · simp [here]
      · rw [if_neg here]
        simp [here, false_or]

end

section
variable (disk : Nat → Block) (payloads : List Payload)

theorem image_magic : Records.word32 (mkimagePayloads disk payloads 0 0) (mkimagePayloads disk payloads 0 1)
    (mkimagePayloads disk payloads 0 2) (mkimagePayloads disk payloads 0 3) = kfsMagic := by
  have plain : mkimagePayloads disk payloads 0 = superBlock payloads.length := by
    rw [mkimagePayloads, bdWriteBlock, Function.update_of_ne (by decide), bdWriteBlock,
      Function.update_of_ne (by decide), putAll_disk _ _ _ (by decide)]
    simp [bdWriteBlock]
  rw [plain]
  exact Records.word32_wordByte kfsMagic

theorem image_dirent (slot : Fin 26) : dirent (mkimagePayloads disk payloads 2) slot =
    ((payloads[slot.val]?).map (payloadDirent · slot)).getD (dirent (fun _ => 0) slot) := by
  rw [mkimagePayloads, bdWriteBlock, Function.update_of_ne (by decide), bdWriteBlock, Function.update_self,
    putAll_dirent, if_pos (List.mem_finRange slot)]

theorem image_bitmap (b : Nat) : bitmapOf (mkimagePayloads disk payloads 1) b = true ↔
    b < 3 ∨ ∃ slot : Fin 26, slot.val < payloads.length ∧ 3 + 64 * slot.val ≤ b ∧ b < 3 + 64 * slot.val + 64 := by
  have reserved : ∀ b, kfsBitSetRun (fun _ => false) 0 true 3 b = true ↔ b < 3 := by
    intro b
    rw [kfsBitSetRun_apply]
    simp
  rw [mkimagePayloads, bdWriteBlock, Function.update_self]
  by_cases below : b < 4096
  · rw [bitmapOf_bitmapBlock _ below, putAll_bitmap, reserved]
    simp
  · rw [bitmapOf, decide_eq_false below]
    constructor
    · intro clash
      cases clash
    · rintro (low | ⟨slot, _, _, high⟩) <;> omega

end

end Payloads

section Start

/-- The dentries a walk over files alone adds, newest first. -/
theorem stand_files {fs : Mount n m} {disk : Nat → Block} {below : Nat → Dentries} {block : Nat} {slots : List (Fin 26)}
    {listed : Dentries} {children : List (Name × Fin n)}
    (files : ∀ slot, (dirent (disk block) slot).used = true → (dirent (disk block) slot).isdir = false)
    (stands : (slots.foldl (mountSlot disk below block) listed).stand fs children) :
    ∃ front back, children = front ++ back ∧ listed.stand fs back ∧
      front.map (·.1) = ((slots.filter fun slot => (dirent (disk block) slot).used).map
        fun slot => (dirent (disk block) slot).text).reverse ∧
      (∀ name i, (name, i) ∈ front → ∃ slot, (dirent (disk block) slot).used = true ∧
        name = (dirent (disk block) slot).text ∧
        fs.inodes i = some ⟨1, .reg ((dirent (disk block) slot).file block slot)⟩) := by
  induction slots generalizing listed with
  | nil => exact ⟨[], children, rfl, stands, rfl, by simp⟩
  | cons first rest ih =>
    obtain ⟨front, back, rfl, behind, names, each⟩ := ih stands
    rw [mountSlot] at behind
    by_cases used : (dirent (disk block) first).used = true
    · rw [if_pos used, if_neg (by simp [files first used])] at behind
      obtain ⟨i, back, rfl, here, behind⟩ := behind
      refine ⟨front ++ [((dirent (disk block) first).text, i)], back, by simp, behind, by simp [names, used], ?_⟩
      intro name j inside
      cases List.mem_append.mp inside with
      | inl inside => exact each name j inside
      | inr last =>
        cases List.mem_singleton.mp last
        exact ⟨first, used, rfl, here⟩
    · rw [if_neg used] at behind
      exact ⟨front, back, rfl, behind, by simp [names, used], each⟩

theorem Imaged.flat {nblocks : Nat} {payloads : List Payload} {fs : Mount n m} (imaged : Imaged nblocks payloads fs)
    (fits : fitsDevice nblocks payloads) (apart : namesApart payloads) : ∃ children, Flat fs children := by
  obtain ⟨disk, image⟩ := imaged.image
  obtain ⟨listed, children, mounted, root, stands, _, only⟩ := imaged.mounted
  obtain ⟨few, small, room⟩ := fits
  -- what a used entry of the root table is
  have given : ∀ slot, (dirent (fs.disk 2) slot).used = true → ∃ p, payloads[slot.val]? = some p ∧
      dirent (fs.disk 2) slot = payloadDirent p slot ∧ p.cut.bytes ≠ [] := by
    intro slot used
    have entry := image_dirent disk payloads slot
    rw [← image] at entry
    rw [entry] at used ⊢
    cases there : payloads[slot.val]? with
    | none =>
      rw [there, Option.map_none] at used
      cases used
    | some p =>
      rw [there] at used
      exact ⟨p, rfl, rfl, (payloadDirent_used p slot).mp used⟩
  have text : ∀ slot p, dirent (fs.disk 2) slot = payloadDirent p slot → (dirent (fs.disk 2) slot).text = p.cut := by
    intro slot p entry
    rw [entry, Dirent.text_of_named (payloadDirent_named p slot)]
  have unique : ∀ slot slot', (dirent (fs.disk 2) slot).used = true → (dirent (fs.disk 2) slot').used = true →
      (dirent (fs.disk 2) slot).text = (dirent (fs.disk 2) slot').text → slot = slot' := by
    intro slot slot' used used' same
    obtain ⟨p, at_, entry, texted⟩ := given slot used
    obtain ⟨p', at_', entry', texted'⟩ := given slot' used'
    rw [text slot p entry, text slot' p' entry'] at same
    exact Fin.ext (apart.index at_ at_' same texted)
  have files : ∀ slot, (dirent (fs.disk 2) slot).used = true → (dirent (fs.disk 2) slot).isdir = false := by
    intro slot used
    obtain ⟨p, _, entry, _⟩ := given slot used
    rw [entry, payloadDirent_isdir]
  rw [kfsMount] at mounted
  split at mounted
  case isFalse => cases mounted
  simp only [Option.some.injEq, Prod.mk.injEq] at mounted
  obtain ⟨bitmap, rfl⟩ := mounted
  obtain ⟨depth, rfl⟩ : ∃ depth, n = depth + 1 := ⟨n - 1, by have := fs.mountpoint.isLt; omega⟩
  obtain ⟨front, back, rfl, empty, names, each⟩ := stand_files files stands
  subst empty
  rw [List.append_nil] at *
  have bits : ∀ b, fs.bitmap b = true ↔ _ := fun b => by rw [← bitmap, image, image_bitmap]
  refine ⟨front, root, ?_, ?_, ?_, ?_, ?_, ?_, fun b low => (bits b).mpr (.inl low), ?_, imaged.closed⟩
  · intro i inode here
    have inside := only i (by rw [here]; exact Option.some_ne_none inode)
    simpa using inside
  · rw [names, List.nodup_reverse]
    refine List.Nodup.map_on ?_ ((List.nodup_finRange 26).filter _)
    intro slot used slot' used'
    exact unique slot slot' (List.mem_filter.mp used).2 (List.mem_filter.mp used').2
  · intro name i inside
    obtain ⟨slot, used, rfl, here⟩ := each name i inside
    obtain ⟨p, _, entry, _⟩ := given slot used
    refine ⟨slot, used, ?_, here⟩
    rw [text slot p entry, entry, payloadDirent_named]
  · intro slot used
    obtain ⟨p, _, entry, _⟩ := given slot used
    have inside : (dirent (fs.disk 2) slot).text ∈ front.map (·.1) := by
      rw [names, List.mem_reverse]
      exact List.mem_map_of_mem (List.mem_filter.mpr ⟨List.mem_finRange slot, used⟩)
    obtain ⟨child, member, same⟩ := List.mem_map.mp inside
    refine ⟨child.1, child.2, member, ?_⟩
    rw [same, text slot p entry, entry, payloadDirent_named]
  · intro slot used
    obtain ⟨p, there, entry, _⟩ := given slot used
    have size := small p (List.mem_of_getElem? there)
    refine ⟨files slot used, by rw [entry, payloadDirent_start], ?_⟩
    rw [entry, payloadDirent, BitVec.toNat_ofNat, Nat.mod_eq_of_lt (by omega)]
    exact size
  · intro slot slot' name used used' named named'
    exact unique slot slot' used used' ((Dirent.text_of_named named).trans (Dirent.text_of_named named').symm)
  · intro slot b used low high
    obtain ⟨p, there, _, _⟩ := given slot used
    have inside : slot.val < payloads.length := (List.getElem?_eq_some_iff.mp there).1
    refine ⟨(bits b).mpr (.inr ⟨slot, inside, low, high⟩), ?_⟩
    rw [imaged.device]
    omega

end Start

end Kappara.Fs
