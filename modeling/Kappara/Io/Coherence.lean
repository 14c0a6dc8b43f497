import Kappara.Io.Lists

/-! What is read through the cache (bd_read_block and bd_write_block of
uts/os/fs/kfs.c over uts/os/io/buf.c).

The cache is compared with a flat map of blocks. It stands for the map as long
as no transfer of a write fails and no write goes to the device with B_READ left
over from a failed read, which turns it into a read. -/

set_option autoImplicit false

namespace Kappara.Io

open Links
open Function (update update_of_ne update_self)

variable {n : Nat}

section

variable (drivers : BitVec 8 → Bool) (c : Cache n)

def bdReadBlock (wb ok : Bool) (c : Cache n) (key : Key) : Option (Cache n × Option Block) :=
  match bread drivers wb ok c key with
  | none => none
  | some (c, none) => some (c, none)
  | some (c, some i) => some (brelse c i, some (c.bufs i).data)

def bdWriteBlock (wb ok : Bool) (c : Cache n) (key : Key) (data : Block) : Option (Cache n × Bool) :=
  match getblk drivers wb c key with
  | none => none
  | some (c, none) => some (c, false)
  | some (c, some i) => some (bwrite drivers ok ((c.fill i data).mark i fun f => { f with valid := true }) i)

/-- A caller gets the buffer, stores the block into it and leaves the transfer for later. -/
def delayedWrite (wb : Bool) (c : Cache n) (key : Key) (data : Block) : Option (Cache n × Bool) :=
  match getblk drivers wb c key with
  | none => none
  | some (c, none) => some (c, false)
  | some (c, some i) => some (bdwrite (c.fill i data) i, true)

/-- What callers do, with the outcomes of the transfers of the victim and of the block itself. -/
inductive Access where
  | read (key : Key) (wb ok : Bool)
  | write (key : Key) (data : Block) (wb ok : Bool)
  | delayed (key : Key) (data : Block) (wb : Bool)
  deriving DecidableEq

inductive Report where
  | read (key : Key) (result : Option Block)
  | write (key : Key) (data : Block) (success : Bool)
  deriving DecidableEq

/-- The cache and the reports so far, the latest one first. -/
structure Log (n : Nat) where
  cache : Cache n
  reports : List Report

/-- After buf_init, with the given contents of the devices. -/
def Begun (disk : Key → Block) (log : Log n) : Prop := ∃ slab, log = ⟨bufInit slab disk, []⟩

def Access.key : Access → Key
  | .read key _ _ => key
  | .write key _ _ _ => key
  | .delayed key _ _ => key

def perform : Access → Option (Cache n × Report)
  | .read key wb ok => (bdReadBlock drivers wb ok c key).map fun (c, result) => (c, .read key result)
  | .write key data wb ok =>
    (bdWriteBlock drivers wb ok c key data).map fun (c, success) => (c, .write key data success)
  | .delayed key data wb => (delayedWrite drivers wb c key data).map fun (c, success) => (c, .write key data success)

def access (log : Log n) (a : Access) : Option (Log n) :=
  if bdevLookup drivers (major a.key.1) then
    (perform drivers log.cache a).map fun (c, report) => ⟨c, report :: log.reports⟩
  else none

/-- The flat map: what the latest successful write left, or what the device held at first. -/
def latest (disk : Key → Block) : List Report → Key → Block
  | [] => disk
  | .write key data true :: earlier => update (latest disk earlier) key data
  | _ :: earlier => latest disk earlier

/-- Every successful read returned what the flat map held at that moment. -/
def Coherent (disk : Key → Block) (reports : List Report) : Prop :=
  ∀ later key data earlier, reports = later ++ .read key (some data) :: earlier → data = latest disk earlier key

/-- A miss would evict a buffer that is clean, or whose write-back takes place. -/
def safeVictim (key : Key) (wb : Bool) : Bool :=
  match hashLookup c key, c.lru.head with
  | some none, some i => !(c.bufs i).flags.delwri || wb && !(c.bufs i).flags.read
  | _, _ => true

/-- The buffer of a cached block was not left by a failed read. -/
def writable (key : Key) : Bool :=
  match hashLookup c key with
  | some (some i) => !(c.bufs i).flags.read
  | _ => true

/-- The transfers of writes take place, as writes. -/
def writesLand : Access → Bool
  | .read key wb _ => safeVictim c key wb
  | .write key _ wb ok => safeVictim c key wb && ok && writable c key
  | .delayed key _ wb => safeVictim c key wb

end

variable {data : Block} {disk : Key → Block} {reports : List Report}

section Mirror

variable {drivers : BitVec 8 → Bool} {ok wb : Bool} {c c' : Cache n} {i : Fin n} {key : Key} {flat flat' : Key → Block}

-- Valid buffers hold the block of the flat map, and so do the devices except where a buffer is dirty.
structure Backed (flat : Key → Block) (c : Cache n) : Prop where
  valid : ∀ i, (c.bufs i).flags.valid = true → (c.bufs i).data = flat (c.bufs i).key
  dirty : ∀ i, (c.bufs i).flags.delwri = true → (c.bufs i).flags.valid = true
  clean : ∀ key, (∀ i, (c.bufs i).key = key → (c.bufs i).flags.delwri = false) → c.disk key = flat key

structure Mirrors (drivers : BitVec 8 → Bool) (flat : Key → Block) (c : Cache n) : Prop where
  table : ∃ chains, Tabled c chains ∧ ∀ h i, i ∈ chains h → (c.bufs i).dev ≠ noDev
  driven : ∀ i, (c.bufs i).dev ≠ noDev → bdevLookup drivers (major (c.bufs i).dev) = true
  fresh : ∀ i, (c.bufs i).dev = noDev → (c.bufs i).flags.valid = false
  backed : Backed flat c

section

variable (backed : Backed flat c)
include backed

theorem Backed.change (i : Fin n) (others : ∀ j, j ≠ i → c'.bufs j = c.bufs j)
    (apart : ∀ j, j ≠ i → (c.bufs j).flags.valid = true → flat' (c.bufs j).key = flat (c.bufs j).key)
    (valid : (c'.bufs i).flags.valid = true → (c'.bufs i).data = flat' (c'.bufs i).key)
    (dirty : (c'.bufs i).flags.delwri = true → (c'.bufs i).flags.valid = true)
    (clean : ∀ key, ((c'.bufs i).key = key → (c'.bufs i).flags.delwri = false) →
      (∀ j, j ≠ i → (c.bufs j).key = key → (c.bufs j).flags.delwri = false) →
        c'.disk key = flat' key) : Backed flat' c' where
  valid j marked := by
    by_cases same : j = i
    · exact same ▸ valid (same ▸ marked)
    · rw [others j same] at marked ⊢
      rw [apart j same marked]
      exact backed.valid j marked
  dirty j marked := by
    by_cases same : j = i
    · exact same ▸ dirty (same ▸ marked)
    · rw [others j same] at marked ⊢
      exact backed.dirty j marked
  clean key none := by
    refine clean key (none i) fun j other carries => ?_
    have unmarked := none j
    rw [others j other] at unmarked
    exact unmarked carries

theorem Backed.marked (i : Fin n) (f : Flags → Flags) (valid : (f (c.bufs i).flags).valid = (c.bufs i).flags.valid)
    (delwri : (f (c.bufs i).flags).delwri = (c.bufs i).flags.delwri) : Backed flat (c.mark i f) := by
  apply backed.change i (fun j other => mark_of_ne c i f other) (fun _ _ _ => rfl)
  · rw [mark_self, valid]
    exact backed.valid i
  · rw [mark_self, valid, delwri]
    exact backed.dirty i
  · intro key here there
    apply backed.clean key
    intro j carries
    by_cases same : j = i
    · rw [mark_self, delwri] at here
      rw [same]
      exact here (same ▸ carries)
    · exact there j same carries

theorem Backed.released (i : Fin n) : Backed flat (brelse c i) := by
  have marked := backed.marked i (fun f => { f with busy := false }) rfl rfl
  exact ⟨marked.valid, marked.dirty, marked.clean⟩

theorem Backed.unlinked (q : Queue (Fin n)) : Backed flat { c with lru := q } :=
  ⟨backed.valid, backed.dirty, backed.clean⟩

end

theorem driven_used {dev : Dev} (driven : bdevLookup drivers (major dev) = true) : dev ≠ noDev := by
  rintro rfl
  simp [bdevLookup, major, noDev] at driven

theorem Mirrors.touch (mirrors : Mirrors drivers flat c) (same : SameTable c c')
    (others : ∀ j, j ≠ i → c'.bufs j = c.bufs j)
    (used : (c.bufs i).dev ≠ noDev) (backed : Backed flat' c') : Mirrors drivers flat' c' where
  table := by
    obtain ⟨chains, tabled, members⟩ := mirrors.table
    refine ⟨chains, tabled.same same, fun h j member => ?_⟩
    rw [same.dev]
    exact members h j member
  driven j := by
    rw [same.dev]
    exact mirrors.driven j
  fresh j free := by
    rw [same.dev] at free
    have other : j ≠ i := fun equal => used (equal ▸ free)
    rw [others j other]
    exact mirrors.fresh j free
  backed := backed

theorem writeBack_backed (mirrors : Mirrors drivers flat c) (head : c.lru.head = some i)
    (missing : hashLookup c key = some none)
    (safe : safeVictim c key wb = true) : (∀ j, j ≠ i → (writeBack drivers wb c i).bufs j = c.bufs j) ∧
    ∀ key, (∀ j, j ≠ i → (c.bufs j).key = key → (c.bufs j).flags.delwri = false) →
      (writeBack drivers wb c i).disk key = flat key := by
  rw [safeVictim, missing, head] at safe
  unfold writeBack
  split
  next dirty =>
    -- The victim's block reaches its device.
    simp only [dirty, Bool.not_true, Bool.false_or, Bool.and_eq_true, Bool.not_eq_true'] at safe
    have used : (c.bufs i).dev ≠ noDev := by
      intro free
      have valid := mirrors.backed.dirty i dirty
      rw [mirrors.fresh i free] at valid
      cases valid
    have moved : moves drivers wb (c.bufs i) = true := by
      rw [moves, mirrors.driven i used, safe.1]
      rfl
    have landed := @bwrite_landed n drivers wb { c with lru := c.lru.unlink i } i moved safe.2
    refine ⟨landed.others, fun key none => ?_⟩
    rw [landed.disk]
    by_cases same : key = (c.bufs i).key
    · subst same
      rw [update_self]
      exact mirrors.backed.valid i (mirrors.backed.dirty i dirty)
    · rw [update_of_ne same]
      apply mirrors.backed.clean key
      intro j carries
      exact none j (fun equal => same (equal ▸ carries.symm)) carries
  next clean =>
    refine ⟨fun _ _ => rfl, fun key none => mirrors.backed.clean key fun j carries => ?_⟩
    by_cases same : j = i
    · exact same ▸ Bool.eq_false_iff.mpr clean
    · exact none j same carries

structure Granted (drivers : BitVec 8 → Bool) (flat : Key → Block) (c' : Cache n) (key : Key) (i : Fin n) : Prop where
  mirrors : Mirrors drivers flat c'
  key : (c'.bufs i).key = key

section

variable (driven : bdevLookup drivers (major key.1) = true)
include driven

theorem Granted.used (granted : Granted drivers flat c' key i) : (c'.bufs i).dev ≠ noDev := by
  have dev : (c'.bufs i).dev = key.1 := congrArg Prod.fst granted.key
  rw [dev]
  exact driven_used driven

theorem Mirrors.getblk {got : Option (Fin n)} (mirrors : Mirrors drivers flat c) (safe : safeVictim c key wb = true)
    (returned : getblk drivers wb c key = some (c', got)) :
    (got = none → Mirrors drivers flat c') ∧
    ∀ i, got = some i → Granted drivers flat c' key i ∧ (writable c key = true → (c'.bufs i).flags.read = false) := by
  obtain ⟨chains, tabled, members⟩ := mirrors.table
  cases getblk_got returned with
  | full => exact ⟨fun _ => mirrors, nofun⟩
  | @hit i found _ =>
    refine ⟨nofun, fun _ same => ?_⟩
    cases same
    have used : (c.bufs i).dev ≠ noDev := members _ i (tabled.lookup_some found).2
    refine ⟨⟨?_, ?_⟩, fun plain => ?_⟩
    · exact mirrors.touch ((unlink_table c i).trans (mark_table _ i _)) (fun j other => mark_of_ne _ i _ other) used
        ((mirrors.backed.unlinked _).marked i _ rfl rfl)
    · rw [mark_key]
      exact (tabled.lookup_some found).1
    · rw [writable, found] at plain
      simpa using plain
  | @evicted i c₂ missing head removed =>
    refine ⟨nofun, fun _ same => ?_⟩
    cases same
    have unused : (c.bufs i).dev = noDev → ∀ h, i ∉ chains h := fun free h member => members h i member free
    obtain ⟨⟨bufs, -, disk⟩, chains', tabled', members'⟩ :=
      tabled.evicted missing unused (writeBack_table drivers wb c i) removed
    obtain ⟨others, clean⟩ := writeBack_backed mirrors head missing safe
    have self := assigned_self c₂ i key
    have rest (j : Fin n) (other : j ≠ i) : (hashInsert (c₂.assign i key) i).bufs j = c.bufs j := by
      rw [assigned_of_ne c₂ key other, bufs, others j other]
    refine ⟨⟨⟨⟨chains', tabled', fun h j member => ?_⟩, fun j used => ?_, fun j free => ?_, ?_⟩, ?_⟩, fun _ => ?_⟩
    · rcases (members' h j).mp member with ⟨old, other⟩ | ⟨-, rfl⟩
      · rw [rest j other]
        exact members h j old
      · rw [self]
        exact driven_used driven
    · by_cases same : j = i
      · rw [same, self]
        exact driven
      · rw [rest j same] at used ⊢
        exact mirrors.driven j used
    · by_cases same : j = i
      · rw [same, self]
        rfl
      · rw [rest j same] at free ⊢
        exact mirrors.fresh j free
    · apply mirrors.backed.change i rest (fun _ _ _ => rfl)
      · rw [self]
        exact nofun
      · rw [self]
        exact nofun
      · intro k _ none
        have same : (hashInsert (c₂.assign i key) i).disk = (writeBack drivers wb c i).disk := disk
        rw [same]
        exact clean k none
    · rw [self]
      rfl
    · rw [self]
      rfl

theorem Granted.stored (granted : Granted drivers flat c key i) (same : SameTable c c')
    (others : ∀ j, j ≠ i → c'.bufs j = c.bufs j) (holds : (c'.bufs i).data = data)
    (valid : (c'.bufs i).flags.valid = true) (disk : (c'.bufs i).flags.delwri = false → c'.disk key = data)
    (rest : ∀ k, k ≠ key → c'.disk k = c.disk k) : Mirrors drivers (update flat key data) c' := by
  obtain ⟨chains, tabled, -⟩ := granted.mirrors.table
  have used := granted.used driven
  have here : (c'.bufs i).key = key := (same.keys i).trans granted.key
  apply granted.mirrors.touch same others used
  apply granted.mirrors.backed.change i others
  · intro j other _
    rw [update_of_ne]
    intro clash
    exact other (tabled.single used (granted.key.trans clash.symm)).symm
  · intro _
    rw [here, update_self, holds]
  · intro _
    exact valid
  · intro k unmarked none
    by_cases equal : k = key
    · subst equal
      rw [update_self]
      exact disk (unmarked here)
    · rw [update_of_ne equal, rest k equal]
      apply granted.mirrors.backed.clean k
      intro j carries
      refine none j ?_ carries
      rintro rfl
      exact equal (carries.symm.trans granted.key)

end

section

variable (mirrors : Mirrors drivers flat c) (driven : bdevLookup drivers (major key.1) = true)
  (safe : safeVictim c key wb = true)
include mirrors driven safe

theorem Mirrors.write {success : Bool} (lands : ok = true)
    (plain : writable c key = true) (returned : bdWriteBlock drivers wb ok c key data = some (c', success)) :
    Mirrors drivers (if success then update flat key data else flat) c' := by
  unfold bdWriteBlock at returned
  split at returned
  · cases returned
  next made =>
    cases returned
    exact (mirrors.getblk driven safe made).1 rfl
  next c₁ i made =>
    obtain ⟨granted, readable⟩ := (mirrors.getblk driven safe made).2 i rfl
    have dev : (c₁.bufs i).dev = key.1 := congrArg Prod.fst granted.key
    let c₂ := (c₁.fill i data).mark i fun f => { f with valid := true }
    have buffer : c₂.bufs i = { c₁.bufs i with data := data, flags := { (c₁.bufs i).flags with valid := true } } := by
      simp [c₂]
    have moved : moves drivers ok (c₂.bufs i) = true := by
      rw [moves, buffer, dev, driven, lands]
      rfl
    have landed : Landed c₂ (bwrite drivers ok c₂ i).1 i := bwrite_landed moved (by rw [buffer]; exact readable plain)
    have told : success = true := by
      have second := congrArg Prod.snd (Option.some.inj returned)
      rw [bwrite_eq] at second
      exact second.symm.trans moved
    have result : (bwrite drivers ok c₂ i).1 = c' := congrArg Prod.fst (Option.some.inj returned)
    rw [told, ← result]
    have block : (c₂.bufs i).key = key := by
      rw [buffer]
      exact granted.key
    refine granted.stored driven (((fill_table c₁ i data).trans (mark_table _ i _)).trans
      (bwrite_table drivers ok c₂ i)) (fun j other => ?_) ?_ landed.valid (fun _ => ?_) (fun k other => ?_)
    · rw [landed.others j other]
      simp [c₂, other]
    · rw [landed.data, buffer]
    · rw [landed.disk, block, update_self, buffer]
    · rw [landed.disk, block, update_of_ne other]
      rfl

theorem Mirrors.delayed {success : Bool} (returned : delayedWrite drivers wb c key data = some (c', success)) :
    Mirrors drivers (if success then update flat key data else flat) c' := by
  unfold delayedWrite at returned
  split at returned
  · cases returned
  next made =>
    cases returned
    exact (mirrors.getblk driven safe made).1 rfl
  next c₁ i made =>
    obtain ⟨granted, -⟩ := (mirrors.getblk driven safe made).2 i rfl
    cases returned
    have self : (bdwrite (c₁.fill i data) i).bufs i = { c₁.bufs i with
        data := data, flags := { (c₁.bufs i).flags with delwri := true, valid := true, busy := false } } := by
      simp [bdwrite, brelse]
    refine granted.stored driven ((fill_table c₁ i data).trans ((mark_table _ i _).trans (brelse_table _ i)))
      (fun j other => ?_) ?_ ?_ (fun unmarked => ?_) (fun _ _ => rfl)
    · simp [bdwrite, brelse, other]
    · rw [self]
    · rw [self]
    · rw [self] at unmarked
      cases unmarked

theorem Mirrors.read {result : Option Block} (returned : bdReadBlock drivers wb ok c key = some (c', result)) :
    Mirrors drivers flat c' ∧ ∀ data, result = some data → data = flat key := by
  have release {c : Cache n} {i : Fin n} (mirrors : Mirrors drivers flat c) (used : (c.bufs i).dev ≠ noDev) :
      Mirrors drivers flat (brelse c i) :=
    mirrors.touch (brelse_table c i) (fun j other => mark_of_ne c i (fun f => { f with busy := false }) other) used
      (mirrors.backed.released i)
  unfold bdReadBlock at returned
  split at returned
  · cases returned
  next fetched =>
    cases returned
    refine ⟨?_, nofun⟩
    cases bread_fetched fetched with
    | full made => exact (mirrors.getblk driven safe made).1 rfl
    | @failed c₁ i made =>
      -- The flags of the buffer have changed and nothing else.
      obtain ⟨granted, -⟩ := (mirrors.getblk driven safe made).2 i rfl
      have same := mark_table c₁ i fun f => { f with read := true, done := true, error := true }
      apply release
      · exact granted.mirrors.touch same (fun j other => mark_of_ne c₁ i _ other) (granted.used driven)
          (granted.mirrors.backed.marked i _ rfl rfl)
      · rw [same.dev]
        exact granted.used driven
  next c₂ i fetched =>
    cases returned
    cases bread_fetched fetched with
    | cached made valid =>
      obtain ⟨granted, -⟩ := (mirrors.getblk driven safe made).2 i rfl
      refine ⟨release granted.mirrors (granted.used driven), fun data same => ?_⟩
      cases same
      rw [granted.mirrors.backed.valid i valid, granted.key]
    | @transferred c₁ _ made invalid moved =>
      obtain ⟨granted, -⟩ := (mirrors.getblk driven safe made).2 i rfl
      obtain ⟨chains, tabled, -⟩ := granted.mirrors.table
      -- No buffer of the block is dirty, so the device has it.
      have current : c₁.disk key = flat key := by
        apply granted.mirrors.backed.clean key
        intro j carries
        have equal : i = j := tabled.single (granted.used driven) (granted.key.trans carries.symm)
        rw [← equal, ← Bool.not_eq_true]
        intro dirty
        rw [granted.mirrors.backed.dirty i dirty] at invalid
        cases invalid
      have block : (c₁.fill i (c₁.disk (c₁.bufs i).key)) = c₁.fill i (flat key) := by rw [granted.key, current]
      rw [block]
      have same := (fill_table c₁ i (flat key)).trans
        (mark_table _ i fun f => { f with read := false, done := true, error := false, valid := true })
      have self : ((c₁.fill i (flat key)).mark i fun f =>
          { f with read := false, done := true, error := false, valid := true }).bufs i =
          { c₁.bufs i with data := flat key, flags := { (c₁.bufs i).flags with
            read := false, done := true, error := false, valid := true } } := by simp
      have filled := granted.stored driven same (fun j other => by simp [other]) (congrArg Buf.data self) (by rw [self])
        (fun _ => current) (fun _ _ => rfl)
      rw [Function.update_eq_self] at filled
      refine ⟨release filled (by rw [same.dev]; exact granted.used driven), fun data equal => ?_⟩
      cases equal
      rw [self]

end

theorem Mirrors.perform {a : Access} {report : Report}
    (mirrors : Mirrors drivers (latest disk reports) c) (driven : bdevLookup drivers (major a.key.1) = true)
    (lands : writesLand c a = true) (performed : perform drivers c a = some (c', report)) :
    Mirrors drivers (latest disk (report :: reports)) c' ∧
      ∀ key data, report = .read key (some data) → data = latest disk reports key := by
  have told {key : Key} {data : Block} {success : Bool}
      (mirrors : Mirrors drivers (if success then update (latest disk reports) key data else latest disk reports) c') :
      Mirrors drivers (latest disk (.write key data success :: reports)) c' := by
    cases success <;> exact mirrors
  cases a with
  | read key wb ok =>
    obtain ⟨⟨c₁, result⟩, returned, made⟩ := Option.map_eq_some_iff.mp performed
    cases made
    obtain ⟨next, value⟩ := mirrors.read driven lands returned
    refine ⟨next, fun k data same => ?_⟩
    cases same
    exact value data rfl
  | write key data wb ok =>
    obtain ⟨⟨c₁, success⟩, returned, made⟩ := Option.map_eq_some_iff.mp performed
    cases made
    rw [writesLand, Bool.and_eq_true, Bool.and_eq_true] at lands
    exact ⟨told (mirrors.write driven lands.1.1 lands.1.2 lands.2 returned), nofun⟩
  | delayed key data wb =>
    obtain ⟨⟨c₁, success⟩, returned, made⟩ := Option.map_eq_some_iff.mp performed
    cases made
    exact ⟨told (mirrors.delayed driven lands returned), nofun⟩

theorem mirrors_init (drivers : BitVec 8 → Bool) (slab : Fin n → Block) (disk : Key → Block) :
    Mirrors drivers disk (bufInit slab disk) where
  table := ⟨_, tabled_init slab disk, by simp⟩
  driven _ used := absurd rfl used
  fresh _ _ := rfl
  backed := ⟨nofun, nofun, fun _ _ => rfl⟩

end Mirror

theorem latest_initial (none : ∀ key data, Report.write key data true ∉ reports) : latest disk reports = disk := by
  induction reports with
  | nil => rfl
  | cons report earlier ih =>
    have rest := ih fun key data member => none key data (List.mem_cons_of_mem _ member)
    cases report with
    | read => exact rest
    | write key data success =>
      cases success with
      | false => exact rest
      | true => exact absurd List.mem_cons_self (none key data)

theorem Coherent.cons {report : Report} (coherent : Coherent disk reports)
    (value : ∀ key data, report = .read key (some data) → data = latest disk reports key) :
    Coherent disk (report :: reports) := by
  intro later key data earlier split
  cases later with
  | nil =>
    cases split
    exact value key data rfl
  | cons first rest =>
    cases split
    exact coherent rest key data earlier rfl

/-- In every run in which the transfers of writes take place as writes, the cache reads like a flat map
of blocks that only successful writes change. -/
theorem reads_latest_when_writes_land (n : Nat) (drivers : BitVec 8 → Bool) (disk : Key → Block) (log : Log n)
    (reached : Run.Reach (access drivers) (fun log a => writesLand log.cache a = true) (Begun disk) log) :
    Coherent disk log.reports := by
  have both : Mirrors drivers (latest disk log.reports) log.cache ∧ Coherent disk log.reports := by
    apply reached.invariant
    · rintro log ⟨slab, rfl⟩
      exact ⟨mirrors_init drivers slab disk, fun _ _ _ _ impossible => by simp at impossible⟩
    · rintro log a log' ⟨mirrors, coherent⟩ lands made
      obtain ⟨driven, made⟩ := Option.ite_none_right_eq_some.mp made
      obtain ⟨⟨c, report⟩, performed, rfl⟩ := Option.map_eq_some_iff.mp made
      obtain ⟨next, value⟩ := mirrors.perform driven lands performed
      exact ⟨next, coherent.cons value⟩
  exact both.2

section Examples

def blankLog : Log 64 := ⟨blankCache.cache, []⟩

theorem blankLog_begun : Begun (fun _ => zeroBlock) blankLog := ⟨fun _ => zeroBlock, rfl⟩

-- The last access was a read of the block that found a one at its beginning.
def readsOne (key : Key) : List Report → Bool
  | .read k (some data) :: _ => k == key && data[0]? == some 1#8
  | _ => false

theorem readsOne_elim {key : Key} (reads : readsOne key reports = true) :
    ∃ data earlier, reports = .read key (some data) :: earlier ∧ data[0] = 1#8 := by
  unfold readsOne at reads
  split at reads
  · rw [Bool.and_eq_true, beq_iff_eq, beq_iff_eq] at reads
    exact ⟨_, _, by rw [reads.1], by simpa using reads.2⟩
  · cases reads

theorem reads_latest_when_writes_land_delayed : ∃ log : Log 64,
    Run.Reach (access fun _ => true) (fun log a => writesLand log.cache a = true) (Begun fun _ => zeroBlock) log ∧
    readsOne (bram 0) log.reports = true ∧ Coherent (fun _ => zeroBlock) log.reports := by
  refine Run.Reach.found_with (reads_latest_when_writes_land 64 _ _)
    [.delayed (bram 0) oneBlock true, .write (bram 1) zeroBlock true true, .read (bram 0) true true] blankLog_begun ?_
  decide +kernel

/-- The only write is reported as failed, and the next read returns what it would have written. -/
theorem failed_write_is_read : ∃ log : Log 64, Run.Reach (access fun _ => true) (fun _ _ => True)
    (Begun fun _ => zeroBlock) log ∧
    (∀ key data, Report.write key data true ∉ log.reports) ∧ ¬ Coherent (fun _ => zeroBlock) log.reports := by
  obtain ⟨log, reached, reads, failed⟩ :
    ∃ log : Log 64, Run.Reach (access fun _ => true) (fun _ _ => True) (Begun fun _ => zeroBlock) log ∧
      readsOne (bram 0) log.reports = true ∧
      (log.reports.all fun report => match report with | .write _ _ success => !success | _ => true) = true :=
    Run.Reach.found [.write (bram 0) oneBlock true false, .read (bram 0) true true] blankLog_begun (by decide +kernel)
  obtain ⟨data, earlier, reports, first⟩ := readsOne_elim reads
  have none (key : Key) (data : Block) : Report.write key data true ∉ log.reports :=
    fun member => nomatch List.all_eq_true.mp failed _ member
  refine ⟨log, reached, none, fun coherent => ?_⟩
  have initial : latest (fun _ => zeroBlock) earlier = fun _ => zeroBlock :=
    latest_initial fun key data member => none key data (reports ▸ List.mem_cons_of_mem _ member)
  rw [coherent [] (bram 0) data earlier reports, initial] at first
  cases first

end Examples

end Kappara.Io
