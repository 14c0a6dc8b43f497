import Kappara.Lib.Records

/-! The kfs file system under the VFS calls.

Blocks are read and written through the buffer cache of a device that never
fails, so a block read is the block last written and the disk is a map from block
numbers to blocks. A mount has room for n inodes and m open files; which of them
the allocator hands out is an input of the call, and so is a refusal. A dentry is
kept with the directory that lists it. -/

set_option autoImplicit false

namespace Kappara.Fs

open Function (update)

abbrev Block := Records.Bytes 512

-- A C string: the terminating zero is not part of it.
structure Name where
  bytes : List Byte
  text : 0 ∉ bytes
  deriving DecidableEq

structure Dirent where
  name : Fin 11 → Byte
  startBlock : BitVec 32
  sizeBytes : BitVec 32

-- KFS_DE_DIR_BIT
def dirBit : BitVec 32 := 0x80000000#32

section

variable (table : Block) (i : Fin 26) (e : Dirent)

-- kfs_de_start, kfs_de_isdir
def Dirent.start : Nat := (e.startBlock &&& ~~~dirBit).toNat

def Dirent.isdir : Bool := e.startBlock &&& dirBit != 0

def Dirent.used : Bool := e.name 0 != 0

def Dirent.empty : Dirent := ⟨fun _ => 0, 0, 0⟩

-- The comparison of both directory scans: equal up to and including the zero, which
-- stands within the 11 bytes.
def Dirent.named (name : Name) : Bool :=
  (List.ofFn e.name).takeWhile (· != 0) == name.bytes && decide (name.bytes.length < 11)

def Dirent.decode (bytes : Records.Bytes 19) : Dirent where
  name k := bytes (k.castLE (by decide))
  startBlock := Records.word32 (bytes 11) (bytes 12) (bytes 13) (bytes 14)
  sizeBytes := Records.word32 (bytes 15) (bytes 16) (bytes 17) (bytes 18)

def Dirent.encode : Records.Bytes 19 := fun k =>
  if inName : k.val < 11 then e.name ⟨k, inName⟩
  else if k.val < 15 then Records.wordByte e.startBlock (k - 11)
  else Records.wordByte e.sizeBytes (k - 15)

-- dir[i] of a block read into a dirent table, and an assignment to it.
def dirent : Dirent := .decode (Records.record (by decide) table i)

def setDirent : Block := Records.setRecord table i e.encode

def setSize (size : Nat) : Block :=
  setDirent table i { dirent table i with sizeBytes := BitVec.ofNat 32 size }

end

structure KfsFile where
  startBlock : Nat
  sizeBytes : Nat
  allocBlocks : Nat
  dirBlock : Nat
  direntIdx : Fin 26
  deriving DecidableEq

inductive Body (n : Nat) where
  | reg (kf : KfsFile)
  | dir (block : Nat) (children : List (Name × Fin n))

structure Inode (n : Nat) where
  count : Nat
  body : Body n

structure Cursor (n : Nat) where
  ino : Fin n
  pos : Nat

structure Mount (n m : Nat) where
  nblocks : Nat
  disk : Nat → Block
  bitmap : Nat → Bool
  inodes : Fin n → Option (Inode n)
  files : Fin m → Option (Cursor n)
  mountpoint : Fin n

variable {n m : Nat}

section

variable (disk : Nat → Block) (bitmap : Nat → Bool)

def bdWriteBlock (blkno : Nat) (block : Block) : Nat → Block :=
  update disk blkno block

def kfsBitSet (blk : Nat) (val : Bool) : Nat → Bool := update bitmap blk val

def kfsBitSetRun (start : Nat) (val : Bool) : Nat → (Nat → Bool)
  | 0 => bitmap
  | count + 1 => kfsBitSet (kfsBitSetRun start val count) (start + count) val

-- The 512 bytes of the bitmap, lowest bit first within a byte.
def bitmapBlock : Block := fun k =>
  BitVec.ofNat 8 (((List.range 8).map fun j => if bitmap (8 * k + j) then 2 ^ j else 0).sum)

def kfsBitmapSave : Nat → Block :=
  bdWriteBlock disk 1 (bitmapBlock bitmap)

def zeroRun (start : Nat) : Nat → (Nat → Block)
  | 0 => disk
  | count + 1 => bdWriteBlock (zeroRun start count) (start + count) fun _ => 0

end

-- First fit over the blocks behind the root table.
def findRun (nblocks : Nat) (bitmap : Nat → Bool) (count : Nat) : Option Nat :=
  let total := min nblocks 4096
  (List.range' 3 (total + 1 - count - 3)).find? fun start =>
    (List.range count).all fun i => !bitmap (start + i)

section

variable (fs : Mount n m) (d : Fin n) (block : Nat) (name : Name) (f : Fin m) (c : Cursor n) (i : Fin n) (count : Nat)
  (kf : KfsFile)

def kfsAllocBlockZero : Option (Nat × Mount n m) :=
  match findRun fs.nblocks fs.bitmap count with
  | none => none
  | some start =>
    let bitmap := kfsBitSetRun fs.bitmap start true count
    some (start, { fs with bitmap, disk := zeroRun (kfsBitmapSave fs.disk bitmap) start count })

def kfsFreeBlocks (start count : Nat) : Mount n m :=
  let bitmap := kfsBitSetRun fs.bitmap start false count
  { fs with bitmap, disk := kfsBitmapSave fs.disk bitmap }

def kfsDirFindSlot (table : Block) (name : Name) : Option (Fin 26) :=
  if 11 ≤ name.bytes.length then none
  else if (List.finRange 26).any fun i => (dirent table i).used && (dirent table i).named name then none
  else (List.finRange 26).find? fun i => !(dirent table i).used

def kfsDirFindNamed (table : Block) (name : Name) : Option (Fin 26) :=
  (List.finRange 26).find? fun i => (dirent table i).used && (dirent table i).named name

-- The entry creat and mkdir write; tag is the directory bit or nothing.
def newDirent (start : Nat) (tag : BitVec 32) : Dirent where
  name k := (name.bytes.take 10).getD k 0
  startBlock := BitVec.ofNat 32 start ||| tag
  sizeBytes := 0

/-- What new_inode and new_dentry give: nothing, also where the call returns before them for want of memory, an inode
that no dentry names, a dentry without an inode, or both. -/
inductive Made (n : Nat) where
  | none
  | unnamed
  | bare
  | both (i : Fin n)

def Made.inode : Made n → Option (Fin n)
  | .both i => some i
  | _ => .none

-- An unnamed inode is lost. A dentry without an inode is not followed further: vfs_lookup and open use the inode of
-- what they find without a test.
def addChild (body : Body n) : Made n → Mount n m
  | .none | .unnamed | .bare => fs
  | .both i =>
    match fs.inodes d with
    | some ⟨count, .dir block children⟩ =>
      let listed := update fs.inodes d (some ⟨count, .dir block ((name, i) :: children)⟩)
      { fs with inodes := update listed i (some ⟨1, body⟩) }
    | _ => fs

-- The part creat and mkdir share: a run, and an entry for it in a free slot.
def kfsDirEnter (tag : BitVec 32) :
    Option (Fin 26 × Nat × Mount n m) :=
  match kfsDirFindSlot (fs.disk block) name with
  | none => none
  | some slot =>
    match kfsAllocBlockZero fs count with
    | none => none
    | some (start, fs') =>
      let table := setDirent (fs.disk block) slot (newDirent name start tag)
      some (slot, start, { fs' with disk := bdWriteBlock fs'.disk block table })

def kfsDirCreat (made : Made n) : Mount n m :=
  match kfsDirEnter fs block name 64 0 with
  | none => fs
  | some (slot, start, fs') =>
    addChild fs' d name (.reg { startBlock := start, sizeBytes := 0, allocBlocks := 64,
                                dirBlock := block, direntIdx := slot }) made

def kfsDirMkdir (made : Made n) : Mount n m :=
  match kfsDirEnter fs block name 1 dirBit with
  | none => fs
  | some (_, start, fs') => addChild fs' d name (.dir start []) made

def clearDirent (slot : Fin 26) : Mount n m :=
  { fs with disk := bdWriteBlock fs.disk block (setDirent (fs.disk block) slot .empty) }

def kfsDirUnlink : Option (Mount n m) :=
  match kfsDirFindNamed (fs.disk block) name with
  | none => none
  | some slot =>
    let e := dirent (fs.disk block) slot
    if e.isdir then none
    else if e.start = 0 then some (clearDirent fs block slot)
    else some (kfsFreeBlocks (clearDirent fs block slot) e.start 64)

def kfsDirRmdir : Option (Mount n m) :=
  match kfsDirFindNamed (fs.disk block) name with
  | none => none
  | some slot =>
    let e := dirent (fs.disk block) slot
    if !e.isdir then none
    else if (List.finRange 26).any fun i => (dirent (fs.disk e.start) i).used then none
    else some (kfsFreeBlocks (clearDirent fs block slot) e.start 1)

def findChild (children : List (Name × Fin n)) (name : Name) : Option (Fin n) :=
  (children.find? fun child => child.1 = name).map (·.2)

def vfsWalk (fs : Mount n m) (at_ : Fin n) : List Name → Option (Fin n)
  | [] => some at_
  | name :: rest =>
    match fs.inodes at_ with
    | some ⟨_, .dir _ children⟩ =>
      match findChild children name with
      | none => none
      | some child => vfsWalk fs child rest
    | _ => none

-- Paths are the components behind the mountpoint.
def vfsLookup (path : List Name) : Option (Fin n) := vfsWalk fs fs.mountpoint path

def vfsIget : Mount n m :=
  match fs.inodes i with
  | none => fs
  | some inode => { fs with inodes := update fs.inodes i (some { inode with count := inode.count + 1 }) }

-- The inode and the record behind it go with the last reference.
def vfsIput : Mount n m :=
  match fs.inodes i with
  | none => fs
  | some inode =>
    if inode.count ≤ 1 then { fs with inodes := update fs.inodes i none }
    else { fs with inodes := update fs.inodes i (some { inode with count := inode.count - 1 }) }

def vfsRemoveChild : Mount n m :=
  match fs.inodes d with
  | some ⟨count, .dir block children⟩ =>
    match findChild children name with
    | none => fs
    | some i =>
      let rest := children.eraseP fun child => child.1 = name
      vfsIput { fs with inodes := update fs.inodes d (some ⟨count, .dir block rest⟩) } i
  | _ => fs

def setKf : Mount n m :=
  { fs with inodes := update fs.inodes i (some ⟨count, .reg kf⟩) }

-- The size goes to the record in memory and to the entry on the disk.
def pushSize (size : Nat) : Mount n m :=
  let disk := bdWriteBlock fs.disk kf.dirBlock (setSize (fs.disk kf.dirBlock) kf.direntIdx size)
  setKf { fs with disk } i count { kf with sizeBytes := size }

-- The loop of regfile_write; every round moves at least one byte, so the fuel is the length.
def regfileCopy (start : Nat) : Nat → (Nat → Block) → Nat → List Byte → (Nat → Block)
  | 0, disk, _, _ => disk
  | fuel + 1, disk, off, src =>
    if src = [] then disk
    else
      let blk := start + off / 512
      let offblk := off % 512
      let k := min (512 - offblk) src.length
      let tmp : Block := fun b => if offblk ≤ b.val ∧ b.val < offblk + k then src.getD (b - offblk) 0 else disk blk b
      regfileCopy start fuel (bdWriteBlock disk blk tmp) (off + k) (src.drop k)

def regfileWrite (buf : List Byte) : Mount n m :=
  let max := kf.allocBlocks * 512
  if max ≤ c.pos then fs
  else
    let src := buf.take (max - c.pos)
    let pos := c.pos + src.length
    let disk := regfileCopy kf.startBlock src.length fs.disk c.pos src
    let fs' := { fs with disk, files := update fs.files f (some { c with pos }) }
    if kf.sizeBytes < pos then pushSize fs' c.ino count kf pos else fs'

-- At most the rest of one block; the bytes read and the moved cursor.
def regfileRead (len : Nat) : List Byte × Mount n m :=
  if kf.sizeBytes ≤ c.pos then ([], fs)
  else
    let block := fs.disk (kf.startBlock + c.pos / 512)
    let offblk := c.pos % 512
    let k := min (min len (512 - offblk)) (kf.sizeBytes - c.pos)
    (((List.ofFn block).drop offblk).take k,
      { fs with files := update fs.files f (some { c with pos := c.pos + k }) })

inductive Whence where
  | set | cur | end_

def seekTarget (pos size : Nat) (offset : Int) : Whence → Int
  | .set => offset
  | .cur => pos + offset
  | .end_ => size + offset

-- The cursor keeps the low 32 bits of the new position.
def regfileSeek (offset : Int) (whence : Whence) : Mount n m :=
  let newpos := seekTarget c.pos kf.sizeBytes offset whence
  if newpos < 0 then fs
  else { fs with files := update fs.files f (some { c with pos := newpos.toNat % 2 ^ 32 }) }

-- What open obtains: no memory, no free descriptor, or the file it fills in.
inductive Opening (m : Nat) where
  | noMemory
  | noDescriptor
  | file (f : Fin m)

-- Without a descriptor the file is closed again, after O_TRUNC has been carried out.
def sysOpen (trunc : Bool) : Opening m → Mount n m
  | .noMemory => fs
  | .noDescriptor => if trunc then pushSize fs i count kf 0 else fs
  | .file f =>
    let fs' := vfsIget (if trunc then pushSize fs i count kf 0 else fs) i
    { fs' with files := update fs'.files f (some { ino := i, pos := 0 }) }

def sysClose : Mount n m :=
  vfsIput { fs with files := update fs.files f none } c.ino

inductive Op (n m : Nat) where
  | creat (dir : List Name) (base : Name) (made : Made n)
  | mkdir (dir : List Name) (base : Name) (made : Made n)
  | unlink (dir : List Name) (base : Name)
  | rmdir (dir : List Name) (base : Name)
  | open (path : List Name) (trunc : Bool) (opening : Opening m)
  | read (f : Fin m) (len : Nat)
  | write (f : Fin m) (buf : List Byte)
  | seek (f : Fin m) (offset : Int) (whence : Whence)
  | close (f : Fin m)

-- resolve_parent and the checks behind it: the directory, with the block of its table.
def parentDir (dir : List Name) (base : Name) : Option (Fin n × Nat) :=
  if base.bytes = [] then none
  else
    match vfsLookup fs dir with
    | none => none
    | some d =>
      match fs.inodes d with
      | some ⟨_, .dir block _⟩ => some (d, block)
      | _ => none

def regOf : Option (Nat × KfsFile) :=
  match fs.inodes i with
  | some ⟨count, .reg kf⟩ => some (count, kf)
  | _ => none

def fdGet : Option (Cursor n × Nat × KfsFile) :=
  match fs.files f with
  | none => none
  | some c => (regOf fs c.ino).map fun found => (c, found.1, found.2)

-- The allocator hands out only what is free.
def grantable : Made n → Bool
  | .none | .unnamed => true
  | .bare => false
  | .both i => (fs.inodes i).isNone

def Opening.grantable : Opening m → Bool
  | .file f => (fs.files f).isNone
  | _ => true

-- A call that fails leaves the state as it is; none where the allocator could not have answered so, and
-- where it leaves a dentry without an inode.
def step : Op n m → Option (Mount n m)
  | .creat dir base made =>
    if grantable fs made then
      match parentDir fs dir base with
      | none => some fs
      | some (d, block) => some (kfsDirCreat fs d block base made)
    else none
  | .mkdir dir base made =>
    if grantable fs made then
      match parentDir fs dir base with
      | none => some fs
      | some (d, block) => some (kfsDirMkdir fs d block base made)
    else none
  | .unlink dir base =>
    match parentDir fs dir base with
    | none => some fs
    | some (d, block) =>
      match kfsDirUnlink fs block base with
      | none => some fs
      | some fs' => some (vfsRemoveChild fs' d base)
  | .rmdir dir base =>
    match parentDir fs dir base with
    | none => some fs
    | some (d, block) =>
      match kfsDirRmdir fs block base with
      | none => some fs
      | some fs' => some (vfsRemoveChild fs' d base)
  | .open path trunc opening =>
    if opening.grantable fs then
      match vfsLookup fs path with
      | none => some fs
      | some i =>
        match regOf fs i with
        | none => some fs
        | some (count, kf) => some (sysOpen fs i count kf trunc opening)
    else none
  | .read f len =>
    match fdGet fs f with
    | none => some fs
    | some (c, _, kf) => some (regfileRead fs f c kf len).2
  | .write f buf =>
    match fdGet fs f with
    | none => some fs
    | some (c, count, kf) => some (regfileWrite fs f c count kf buf)
  | .seek f offset whence =>
    match fdGet fs f with
    | none => some fs
    | some (c, _, kf) => some (regfileSeek fs f c kf offset whence)
  | .close f =>
    match fs.files f with
    | none => some fs
    | some c => some (sysClose fs f c)

end

-- kfs_mkimage without payloads, then kfs_mount.
def kfsMkimage (nblocks : Nat) (mountpoint : Fin n) : Mount n m :=
  let bitmap := kfsBitSetRun (fun _ => false) 0 true 3
  { nblocks, bitmap, mountpoint
    disk := kfsBitmapSave (fun _ _ => 0) bitmap
    inodes := update (fun _ => none) mountpoint (some ⟨1, .dir 2 []⟩)
    files := fun _ => none }

end Kappara.Fs
