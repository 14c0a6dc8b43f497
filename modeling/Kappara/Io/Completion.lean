import Kappara.Io.Nvme

/-! A disk request reports the result of its own command, as long as no two threads
are between reading the tail and ringing the completion doorbell.

The queues then hold one command at a time. While a call is busy, the positions of
both queues are those of one slot h or the slot after it, and the controller is in
one of four stages of that command; the phase tags tell the entry of this command
from those left by earlier ones. -/

set_option autoImplicit false

namespace Kappara.Nvme

open Function (update update_cases update_of_ne update_self)

section

variable (status : BitVec 15) (phase : Bool)

theorem word_toNat : (word status phase).toNat = 2 * status.toNat + phase.toNat := by
  rw [word, BitVec.toNat_append, ← Nat.shiftLeft_add_eq_or_of_lt (BitVec.ofBool phase).isLt, BitVec.toNat_ofBool]
  omega

@[simp] theorem phaseTag_word : phaseTag (word status phase) = phase := by
  have one : (1 : BitVec 16).toNat = 2 ^ 1 - 1 := by decide
  rw [phaseTag, Bool.eq_iff_iff, beq_iff_eq, ← BitVec.toNat_inj, BitVec.toNat_and, one, Nat.and_two_pow_sub_one_eq_mod,
    word_toNat]
  cases phase <;> simp

theorem scSct_word : (scSct (word status phase)).toNat = status.toNat % 1024 := by
  have mask : (0x3FF : BitVec 16).toNat = 2 ^ 10 - 1 := by decide
  rw [scSct, BitVec.toNat_and, mask, Nat.and_two_pow_sub_one_eq_mod, BitVec.toNat_ushiftRight, word_toNat]
  have bit := phase.toNat_le
  omega

end

/-- The ten bits that the driver looks at, out of the eleven of SC and SCT. -/
theorem scSct_failed {status : BitVec 15} (seen : statusCode status ≠ 0 ∨ statusType status ≠ 4) (phase : Bool) :
    (scSct (word status phase) != 0) = failed status := by
  have code : (statusCode status).toNat = status.toNat % 256 := by
    simp [statusCode]
  have type : (statusType status).toNat = status.toNat / 256 % 8 := by
    simp [statusType, Nat.shiftRight_eq_div_pow]
  have bits := scSct_word status phase
  rw [Bool.eq_iff_iff]
  simp only [failed, bne_iff_ne, Bool.or_eq_true, ne_eq, ← BitVec.toNat_inj, BitVec.ofNat_eq_ofNat,
    BitVec.toNat_ofNat] at seen ⊢
  omega

section
variable {T : Type} [DecidableEq T]

/-! ## The parts of one command's life -/

/-- How far the controller is with the command of the call that is busy. -/
inductive Stage where
  | quiet
  | rung
  | taken
  | done (status : BitVec 15)

section

variable (s : Sys T) (n : Nat) (h : Slot) (p : Bool) (stage : Stage)

def turn : Bool := if h + 1 = 0 then !p else p

/-- The phase tags left by commands of the slots before h, in a round with phase p. -/
def Tags (iocq : Slot → BitVec 16) (h : Slot) (p : Bool) : Prop :=
  ∀ i, phaseTag (iocq i) = if i < h then p else !p

def Stage.Controls (c : Controller) (n : Nat) (h : Slot) (p : Bool) : Stage → Prop
  | .quiet => c.sqDb = h ∧ c.sqHead = h ∧ c.pending = [] ∧ c.cqTail = h ∧ c.cqPhase = p ∧ Tags c.iocq h p
  | .rung => c.sqDb = h + 1 ∧ c.sqHead = h ∧ c.pending = [] ∧ c.cqTail = h ∧ c.cqPhase = p ∧ Tags c.iocq h p
  | .taken =>
    c.sqDb = h + 1 ∧ c.sqHead = h + 1 ∧ c.pending = [some n] ∧ c.cqTail = h ∧ c.cqPhase = p ∧ Tags c.iocq h p ∧
      (c.fetched n).isSome
  | .done status =>
    c.sqDb = h + 1 ∧ c.sqHead = h + 1 ∧ c.pending = [] ∧ c.cqTail = h + 1 ∧ c.cqPhase = turn h p ∧
      Tags c.iocq (h + 1) (turn h p) ∧ (c.fetched n).isSome ∧ c.iocq h = word status p ∧ c.completed n = some status

def Stage.Own (p : Bool) (s : BitVec 16) : Prop := ∃ status, stage = .done status ∧ s = word status p

/-- The tail while a call on slot h is at the given place; the next two are the head and the phase. -/
def Pc.tail : Pc → Slot
  | .storeSqe .. | .nextTail _ | .storeTail .. => h
  | _ => h + 1

def Pc.head : Pc → Slot
  | .testHead .. | .loadPhase .. | .storePhase .. | .readHead .. | .ringCq .. => h + 1
  | _ => h

def Pc.phase : Pc → Bool
  | .readHead .. | .ringCq .. => turn h p
  | _ => p

def Pc.Copied (j : Fin 8) : Pc → Prop
  | .storeSqe _ _ i => j < i
  | _ => True

def Pc.stored : Pc → Bool
  | .storeSqe .. => false
  | _ => true

def Pc.submitted : Pc → Bool
  | .storeSqe .. | .nextTail _ | .storeTail .. | .readTail _ | .ringSq .. => false
  | _ => true

/-- The local values of the busy call number n on slot h. -/
def Fits : Pc → Prop
  | .storeSqe k slot _ => k = n ∧ slot = h
  | .nextTail k | .readTail k | .loadHead k => k = n
  | .storeTail k tail | .ringSq k tail => k = n ∧ tail = h + 1
  | .readStatus k head => k = n ∧ head = h
  | .testPhase k s => k = n ∧ (phaseTag s = p → stage.Own p s)
  | .nextHead k s | .testHead k s | .readHead k s => k = n ∧ stage.Own p s
  | .storeHead k s head | .ringCq k s head => k = n ∧ head = h + 1 ∧ stage.Own p s
  | .loadPhase k s => k = n ∧ h + 1 = 0 ∧ stage.Own p s
  | .storePhase k s phase => k = n ∧ h + 1 = 0 ∧ phase = p ∧ stage.Own p s
  | _ => False

/-- Thread t is alone in the queues, with command number n on slot h. -/
structure Busy (t : T) (pc : Pc) (n : Nat) (h : Slot) (p : Bool) (stage : Stage) : Prop where
  here : s.pc t = pc
  alone : ∀ u, u ≠ t → (s.pc u).busy = false
  calls : s.calls = n + 1
  tail : s.iosqTail = pc.tail h
  head : s.iocqHead = pc.head h
  phase : s.iocqPhase = pc.phase h p
  bell : s.ctrl.cqDb = h
  rung : stage = .quiet ↔ pc.submitted = false
  fits : Fits n h p stage pc
  held : ∀ i j, s.holder i = some j → (s.ctrl.fetched j).isSome ∨ j = n
  copied : ∀ j, pc.Copied j → s.iosq h j = (s.cmd n).words j
  stored : pc.stored = true → s.holder h = some n

/-- No thread is busy, and h is the next slot of both queues. -/
structure Rest : Prop where
  alone : ∀ u, (s.pc u).busy = false
  calls : s.calls = n
  tail : s.iosqTail = h
  head : s.iocqHead = h
  phase : s.iocqPhase = p
  bell : s.ctrl.cqDb = h
  held : ∀ i j, s.holder i = some j → (s.ctrl.fetched j).isSome

/-- What is on record: each report is that of its own command, and the controller read what the call built. -/
structure Book : Prop where
  reported : ∀ t k error, s.pc t = .biodone (some k) error →
    k < n ∧ ∃ status, s.ctrl.completed k = some status ∧ error = failed status
  seen : ∀ k status, s.ctrl.completed k = some status → statusCode status ≠ 0 ∨ statusType status ≠ 4
  whole : ∀ k entry, s.ctrl.fetched k = some entry → entry = (s.cmd k).words
  fresh : ∀ k, s.calls ≤ k → s.ctrl.fetched k = none

inductive Good : Prop where
  | rest {n : Nat} {h : Slot} {p : Bool} : Rest s n h p → Stage.quiet.Controls s.ctrl n h p → Book s n → Good
  | busy {t : T} {pc : Pc} {n : Nat} {h : Slot} {p : Bool} {stage : Stage} : Busy s t pc n h p stage →
      stage.Controls s.ctrl n h p → Book s n → Good

end

variable {s s' : Sys T} {t : T} {pc : Pc} {n : Nat} {h : Slot} {p : Bool} {stage : Stage}
  {disk : Disk}

omit [DecidableEq T] in
theorem Booted.good (booted : Booted s) : Good s := by
  obtain ⟨cid, rfl⟩ := booted
  refine .rest ⟨fun _ => rfl, rfl, rfl, rfl, rfl, rfl, ?_⟩ ⟨rfl, rfl, rfl, rfl, rfl, ?_⟩
    ⟨?_, ?_, ?_, fun _ _ => rfl⟩
  · intro i j held
    cases held
  · intro i
    simp [Sys.start, phaseTag]
  · intro t k error report
    cases report
  · intro k status completed
    cases completed
  · intro k entry fetched
    cases fetched

/-! ## Steps outside the queues -/

/-- A step of thread t to the place pc that puts nothing on record. -/
structure Moves (s s' : Sys T) (t : T) (pc : Pc) : Prop where
  pc : s'.pc = update s.pc t pc
  calls : s'.calls = s.calls
  cmd : s'.cmd = s.cmd
  fetched : s'.ctrl.fetched = s.ctrl.fetched
  completed : s'.ctrl.completed = s.ctrl.completed

theorem Moves.here (moves : Moves s s' t pc) : s'.pc t = pc := by rw [moves.pc, update_self]

theorem Moves.other (moves : Moves s s' t pc) {u : T} (apart : u ≠ t) : s'.pc u = s.pc u := by
  rw [moves.pc, update_of_ne apart]

theorem Moves.idle (moves : Moves s s' t pc) (idle : pc.busy = false) {u : T} (was : u ≠ t → (s.pc u).busy = false) :
    (s'.pc u).busy = false := by
  by_cases same : u = t
  · rw [same, moves.here, idle]
  · rw [moves.other same, was same]

theorem Book.moves (book : Book s n) (moves : Moves s s' t pc) (plain : ∀ k error, pc ≠ .biodone (some k) error) :
    Book s' n := by
  refine ⟨fun u k error report => ?_, ?_, ?_, ?_⟩
  · rw [moves.pc] at report
    rcases update_cases report with ⟨-, is⟩ | ⟨-, report⟩
    · exact absurd is (plain k error)
    · rw [moves.completed]
      exact book.reported u k error report
  · rw [moves.completed]
    exact book.seen
  · rw [moves.fetched, moves.cmd]
    exact book.whole
  · rw [moves.fetched, moves.calls]
    exact book.fresh

theorem Fits.busy (fits : Fits n h p stage pc) : pc.busy = true := by
  cases pc <;> first | rfl | exact fits.elim

/-- The step of a thread that stays out of the queues changes only its own place and the next cid. -/
theorem Good.aside (good : Good s) (was : (s.pc t).busy = false) (idle : pc.busy = false)
    (plain : ∀ k error, pc ≠ .biodone (some k) error) (cid : BitVec 16) :
    Good { s with nextCid := cid, pc := update s.pc t pc } := by
  have moves : Moves s { s with nextCid := cid, pc := update s.pc t pc } t pc := ⟨rfl, rfl, rfl, rfl, rfl⟩
  cases good with
  | rest rest controls book =>
    exact .rest { rest with alone := fun u => moves.idle idle fun _ => rest.alone u } controls (book.moves moves plain)
  | @busy o pc' n h p stage busy controls book =>
    have other : o ≠ t := by
      rintro rfl
      rw [busy.here, busy.fits.busy] at was
      cases was
    exact .busy { busy with
      here := (moves.other other).trans busy.here
      alone := fun u apart => moves.idle idle fun _ => busy.alone u apart } controls (book.moves moves plain)

theorem Good.enter {cmd : Sqe} (good : Good s) (nobody : ∀ u, (s.pc u).busy = false) :
    Good { s with
      pc := update s.pc t (.storeSqe s.calls s.iosqTail 0)
      calls := s.calls + 1
      cmd := update s.cmd s.calls cmd } := by
  cases good with
  | @busy o _ _ _ _ _ busy =>
    have contra := nobody o
    rw [busy.here, busy.fits.busy] at contra
    cases contra
  | @rest n h p rest controls book =>
    have busy : Busy { s with
        pc := update s.pc t (.storeSqe s.calls s.iosqTail 0)
        calls := s.calls + 1
        cmd := update s.cmd s.calls cmd } t (.storeSqe s.calls s.iosqTail 0) n h p .quiet := {
      here := update_self ..
      alone := fun u apart => (congrArg Pc.busy (update_of_ne apart _ s.pc)).trans (rest.alone u)
      calls := congrArg (· + 1) rest.calls
      tail := rest.tail
      head := rest.head
      phase := rest.phase
      bell := rest.bell
      rung := ⟨fun _ => rfl, fun _ => rfl⟩
      fits := ⟨rest.calls, rest.tail⟩
      held := fun i j held => .inl (rest.held i j held)
      copied := fun j below => absurd below (Fin.not_lt_zero j)
      stored := fun none => by cases none }
    refine .busy busy controls ⟨fun u k error report => ?_, book.seen, fun k entry fetched => ?_, fun k above => ?_⟩
    · rcases update_cases report with ⟨-, ⟨⟩⟩ | ⟨-, report⟩
      exact book.reported u k error report
    · have old : k ≠ s.calls := by
        rintro rfl
        cases (book.fresh _ le_rfl).symm.trans fetched
      exact (book.whole k entry fetched).trans (congrArg Sqe.words (update_of_ne old cmd s.cmd).symm)
    · exact book.fresh k (Nat.le_of_succ_le above)

/-! ## Steps of the busy thread -/

/-- A step of the busy thread; what it changes of the driver's record is what its new place says. -/
theorem Busy.moves {pc' : Pc} {stage' : Stage} (busy : Busy s t pc n h p stage) (moves : Moves s s' t pc')
    (tail : s'.iosqTail = pc'.tail h) (head : s'.iocqHead = pc'.head h) (phase : s'.iocqPhase = pc'.phase h p)
    (bell : s'.ctrl.cqDb = s.ctrl.cqDb) (rung : stage' = .quiet ↔ pc'.submitted = false)
    (fits : Fits n h p stage' pc') (holder : s'.holder = s.holder) (iosq : s'.iosq = s.iosq) (full : pc.stored = true) :
    Busy s' t pc' n h p stage' where
  here := moves.here
  alone := fun u apart => (congrArg Pc.busy (moves.other apart)).trans (busy.alone u apart)
  calls := moves.calls.trans busy.calls
  tail := tail
  head := head
  phase := phase
  bell := bell.trans busy.bell
  rung := rung
  fits := fits
  held := by
    rw [holder, moves.fetched]
    exact busy.held
  copied := fun j _ => by
    rw [iosq, moves.cmd]
    refine busy.copied j ?_
    cases pc <;> trivial
  stored := fun _ => by
    rw [holder]
    exact busy.stored full

/-- The entry at the head has the expected phase only once the command is completed. -/
theorem Stage.Controls.reads {c : Controller} (controls : stage.Controls c n h p) (rung : stage ≠ .quiet)
    (phase : phaseTag (c.iocq h) = p) : stage.Own p (c.iocq h) := by
  have stale (tags : Tags c.iocq h p) : False := by
    have tag := tags h
    rw [phase, if_neg (lt_irrefl h)] at tag
    cases p <;> cases tag
  cases stage with
  | quiet => exact absurd rfl rung
  | rung => exact (stale controls.2.2.2.2.2).elim
  | taken => exact (stale controls.2.2.2.2.2.1).elim
  | done status => exact ⟨status, rfl, controls.2.2.2.2.2.2.2.1⟩

section

variable (controls : stage.Controls s.ctrl n h p) (made : run s t = some s')
include controls made

theorem Busy.store {i : Fin 8} (busy : Busy s t (.storeSqe n h i) n h p stage) (book : Book s n) : Good s' := by
  rw [run, busy.here] at made
  cases made
  have held : ∀ slot j, update s.holder h (some n) slot = some j → (s.ctrl.fetched j).isSome ∨ j = n := by
    intro slot j holds
    rcases update_cases holds with ⟨-, ⟨⟩⟩ | ⟨-, holds⟩
    · exact .inr rfl
    · exact busy.held slot j holds
  have copied : ∀ j ≤ i, update s.iosq h (update (s.iosq h) i ((s.cmd n).words i)) h j = (s.cmd n).words j := by
    intro j upTo
    rw [update_self]
    by_cases same : j = i
    · rw [same, update_self]
    · rw [update_of_ne same]
      exact busy.copied j (lt_of_le_of_ne upTo same)
  have plain {pc' : Pc} (tail : pc'.tail h = h) (head : pc'.head h = h) (phase : pc'.phase h p = p)
      (early : pc'.submitted = false) (fits : Fits n h p stage pc') (upTo : ∀ j, pc'.Copied j → j ≤ i) :
      Good { s.goto t pc' with
        iosq := update s.iosq h (update (s.iosq h) i ((s.cmd n).words i))
        holder := update s.holder h (some n) } := by
    have moves : Moves s { s.goto t pc' with
        iosq := update s.iosq h (update (s.iosq h) i ((s.cmd n).words i))
        holder := update s.holder h (some n) } t pc' := ⟨rfl, rfl, rfl, rfl, rfl⟩
    refine .busy ⟨moves.here, fun u apart => (congrArg Pc.busy (moves.other apart)).trans (busy.alone u apart),
      busy.calls, busy.tail.trans tail.symm, busy.head.trans head.symm, busy.phase.trans phase.symm, busy.bell,
      busy.rung.trans (iff_of_true rfl early), fits, held, fun j below => copied j (upTo j below),
        fun _ => update_self ..⟩
      controls (book.moves moves ?_)
    rintro k error rfl
    exact fits
  split
  next last => exact plain rfl rfl rfl rfl rfl fun j _ => by omega
  · exact plain rfl rfl rfl rfl ⟨rfl, rfl⟩ fun j below => by
      have below : j < i + 1 := below
      omega

/-- The last doorbell: the queues are at rest again and the report is that of the command. -/
theorem Busy.leave {word : BitVec 16} {head : Slot} (busy : Busy s t (.ringCq n word head) n h p stage)
    (book : Book s n) : Good s' := by
  rw [run, busy.here] at made
  cases made
  obtain ⟨-, rfl, status, rfl, rfl⟩ := busy.fits
  obtain ⟨bell, head, pending, tail, phase, tags, fetched, -, completed⟩ := controls
  have moves : Moves s { s.goto t (.biodone (some n) (scSct (Nvme.word status p) != 0)) with
      ctrl := { s.ctrl with cqDb := h + 1 } } t (.biodone (some n) (scSct (Nvme.word status p) != 0)) :=
    ⟨rfl, rfl, rfl, rfl, rfl⟩
  refine .rest (n := n + 1) (h := h + 1) (p := turn h p)
    ⟨fun u => ?_, busy.calls, busy.tail, busy.head, busy.phase, rfl, fun i j holds => ?_⟩
    ⟨bell, head, pending, tail, phase, tags⟩
    ⟨fun u k error report => ?_, book.seen, book.whole, book.fresh⟩
  · exact moves.idle rfl (busy.alone u)
  · obtain old | rfl := busy.held i j holds
    · exact old
    · exact fetched
  · rcases update_cases report with ⟨-, ⟨⟩⟩ | ⟨-, report⟩
    · exact ⟨Nat.lt_succ_self n, status, completed, scSct_failed (book.seen n status completed) p⟩
    · obtain ⟨below, own⟩ := book.reported u k error report
      exact ⟨Nat.lt_succ_of_lt below, own⟩

theorem Busy.ring {tail : Slot} (busy : Busy s t (.ringSq n tail) n h p stage) (book : Book s n) : Good s' := by
  rw [run, busy.here] at made
  cases made
  obtain rfl := busy.rung.mpr rfl
  obtain ⟨-, rfl⟩ := busy.fits
  obtain ⟨-, old⟩ := controls
  have moves : Moves s { s.goto t (.loadHead n) with ctrl := { s.ctrl with sqDb := h + 1 } } t (.loadHead n) :=
    ⟨rfl, rfl, rfl, rfl, rfl⟩
  have busy : Busy _ t (.loadHead n) n h p .rung :=
    busy.moves moves busy.tail busy.head busy.phase rfl (by simp [Pc.submitted]) rfl rfl rfl rfl
  exact .busy busy ⟨rfl, old⟩ (book.moves moves (by simp))

theorem Busy.run (busy : Busy s t pc n h p stage) (book : Book s n) : Good s' := by
  have fits := busy.fits
  -- the steps that leave the doorbells and the submission queue alone
  have plain {pc' : Pc} {tail head : Slot} {phase : Bool} (full : pc.stored = true)
    (rung : pc'.submitted = pc.submitted)
      (tail_ : tail = pc'.tail h) (head_ : head = pc'.head h) (phase_ : phase = pc'.phase h p)
        (fits' : Fits n h p stage pc') :
      Good { s.goto t pc' with iosqTail := tail, iocqHead := head, iocqPhase := phase } := by
    have moves : Moves s { s.goto t pc' with iosqTail := tail, iocqHead := head, iocqPhase := phase } t pc' :=
      ⟨rfl, rfl, rfl, rfl, rfl⟩
    refine .busy (busy.moves moves tail_ head_ phase_ rfl (by rw [rung, busy.rung]) fits' rfl rfl full) controls
      (book.moves moves ?_)
    rintro k error rfl
    exact fits'
  have tail := busy.tail
  have head := busy.head
  have phase := busy.phase
  have whole := made
  rw [Nvme.run, busy.here] at made
  cases pc with
  | storeSqe k slot i =>
    obtain ⟨rfl, rfl⟩ := fits
    exact busy.store controls whole book
  | ringSq k tail =>
    obtain ⟨rfl, -⟩ := fits
    exact busy.ring controls whole book
  | ringCq k word head =>
    obtain ⟨rfl, -⟩ := fits
    exact busy.leave controls whole book
  | nextTail k =>
    cases made
    exact plain rfl rfl tail head phase ⟨fits, congrArg (· + 1) tail⟩
  | storeTail k value =>
    cases made
    exact plain rfl rfl fits.2 head phase fits.1
  | readTail k =>
    cases made
    exact plain rfl rfl tail head phase ⟨fits, tail⟩
  | loadHead k =>
    cases made
    exact plain rfl rfl tail head phase ⟨fits, head⟩
  | readStatus k slot =>
    cases made
    obtain ⟨rfl, rfl⟩ := fits
    have rung : stage ≠ .quiet := fun quiet => by cases busy.rung.mp quiet
    exact plain rfl rfl tail head phase ⟨rfl, controls.reads rung⟩
  | testPhase k word =>
    cases made
    by_cases due : phaseTag word = s.iocqPhase
    · rw [if_pos due]
      exact plain rfl rfl tail head phase ⟨fits.1, fits.2 (due.trans phase)⟩
    · rw [if_neg due]
      exact plain rfl rfl tail head phase fits.1
  | nextHead k word =>
    cases made
    exact plain rfl rfl tail head phase ⟨fits.1, congrArg (· + 1) head, fits.2⟩
  | storeHead k word value =>
    cases made
    exact plain rfl rfl tail fits.2.1 phase ⟨fits.1, fits.2.2⟩
  | testHead k word =>
    cases made
    have head : s.iocqHead = h + 1 := head
    by_cases wraps : s.iocqHead = 0
    · rw [if_pos wraps]
      exact plain rfl rfl tail head phase ⟨fits.1, head.symm.trans wraps, fits.2⟩
    · rw [if_neg wraps]
      have stays : turn h p = p := if_neg (head ▸ wraps)
      exact plain rfl rfl tail head (phase.trans stays.symm) fits
  | loadPhase k word =>
    cases made
    exact plain rfl rfl tail head phase ⟨fits.1, fits.2.1, phase, fits.2.2⟩
  | storePhase k word value =>
    cases made
    obtain ⟨number, wraps, rfl, own⟩ := fits
    exact plain rfl rfl tail head (if_pos wraps).symm ⟨number, own⟩
  | readHead k word =>
    cases made
    exact plain rfl rfl tail head phase ⟨fits.1, head, fits.2⟩
  | idle | loadCid | storeCid | loadTail | biodone => exact fits.elim

end

/-! ## Steps of the controller -/

theorem Fits.advance {stage' : Stage} (fits : Fits n h p stage pc) (under : ∀ status, stage ≠ .done status) :
    Fits n h p stage' pc := by
  have none {word : BitVec 16} (own : stage.Own p word) : False := by
    obtain ⟨status, done, -⟩ := own
    exact under status done
  cases pc with
  | testPhase k word => exact ⟨fits.1, fun phase => (none (fits.2 phase)).elim⟩
  | nextHead k word | testHead k word | readHead k word => exact (none fits.2).elim
  | storeHead k word head | ringCq k word head | loadPhase k word => exact (none fits.2.2).elim
  | storePhase k word phase => exact (none fits.2.2.2).elim
  | _ => exact fits

omit [DecidableEq T] in
theorem Busy.control {c : Controller} {stage' : Stage} (busy : Busy s t pc n h p stage) (bell : c.cqDb = s.ctrl.cqDb)
    (fetched : ∀ j, (s.ctrl.fetched j).isSome → (c.fetched j).isSome) (under : ∀ status, stage ≠ .done status)
    (rung : stage ≠ .quiet) (rung' : stage' ≠ .quiet) : Busy { s with ctrl := c } t pc n h p stage' :=
  { busy with
    bell := bell.trans busy.bell
    rung := iff_of_false rung' fun early => rung (busy.rung.mpr early)
    fits := busy.fits.advance under
    held := fun i j holds => (busy.held i j holds).imp_left (fetched j) }

theorem slot_last {h : Fin 32} (wraps : h + 1 = 0) (i : Fin 32) : i ≤ h := by omega

theorem slot_le_iff {h : Fin 32} (stays : h + 1 ≠ 0) (i : Fin 32) : i ≤ h ↔ i < h + 1 := by omega

theorem Good.fetch (good : Good s) (made : step disk s .fetch = some s') : Good s' := by
  simp only [step] at made
  split at made
  · cases made
  next due =>
  cases made
  cases good with
  | rest rest controls book => exact absurd (controls.2.1.trans controls.1.symm) due
  | @busy t pc n h p stage busy controls book =>
    cases stage with
    | quiet | taken | done status => exact absurd (controls.2.1.trans controls.1.symm) due
    | rung =>
      obtain ⟨bell, head, pending, tail, phase, tags⟩ := controls
      have submitted : pc.submitted = true := by
        by_contra early
        cases busy.rung.mpr (by simpa using early)
      have full : pc.stored = true := by cases pc <;> trivial
      have entry : s.iosq h = (s.cmd n).words := by
        funext j
        refine busy.copied j ?_
        cases pc <;> trivial
      rw [head, busy.stored full, entry]
      have fetched (j : Nat) (old : (s.ctrl.fetched j).isSome) :
          ((s.ctrl.fetch (s.cmd n).words (some n)).fetched j).isSome := by
        by_cases same : j = n
        · simp [Controller.fetch, same]
        · simpa [Controller.fetch, same] using old
      have after : Busy { s with ctrl := s.ctrl.fetch (s.cmd n).words (some n) } t pc n h p .taken :=
        busy.control rfl fetched nofun nofun nofun
      refine .busy after ⟨bell, congrArg (· + 1) head, by rw [Controller.fetch, pending]; rfl, tail, phase, tags, ?_⟩
        ⟨book.reported, book.seen, fun k words fetched => ?_, fun k above => ?_⟩
      · simp [Controller.fetch]
      · rcases update_cases fetched with ⟨rfl, ⟨⟩⟩ | ⟨-, fetched⟩
        · rfl
        · exact book.whole k words fetched
      · have beyond : k ≠ n := by
          have := busy.calls
          have above : s.calls ≤ k := above
          omega
        exact (update_of_ne beyond _ s.ctrl.fetched).trans (book.fresh k above)

/-- An entry is posted with the phase of its round, so the tags are those of the slot after it. -/
theorem Tags.post {iocq : Slot → BitVec 16} (tags : Tags iocq h p) (status : BitVec 15) :
    Tags (update iocq h (word status p)) (h + 1) (turn h p) := by
  intro i
  have posted : phaseTag (update iocq h (word status p) i) = if i ≤ h then p else !p := by
    by_cases same : i = h
    · rw [same, update_self, phaseTag_word, if_pos le_rfl]
    · rw [update_of_ne same, tags i]
      exact if_congr (lt_iff_le_and_ne.trans (and_iff_left same)) rfl rfl
  rw [posted, turn]
  by_cases wraps : h + 1 = 0
  · rw [if_pos (slot_last wraps i), if_pos wraps, wraps, if_neg (Fin.not_lt_zero i), Bool.not_not]
  · rw [if_neg wraps, if_congr (slot_le_iff wraps i) rfl rfl]

theorem Good.complete {status : BitVec 15} (good : Good s) (seen : statusCode status ≠ 0 ∨ statusType status ≠ 4)
    (made : step disk s (.complete status) = some s') : Good s' := by
  simp only [step] at made
  split at made
  · cases made
  split at made
  · cases made
  next k rest pending =>
  cases made
  have waiting {left : List (Option Nat)} (is : s.ctrl.pending = left) (empty : left = []) : False := by
    rw [is, empty] at pending
    cases pending
  cases good with
  | rest _ controls _ => exact (waiting controls.2.2.1 rfl).elim
  | @busy t pc n h p stage busy controls book =>
    cases stage with
    | quiet | rung | done _ => exact (waiting controls.2.2.1 rfl).elim
    | taken =>
      obtain ⟨bell, head, one, tail, phase, tags, fetched⟩ := controls
      rw [one] at pending
      cases pending
      have after : Busy { s with ctrl := s.ctrl.post status (some n) [] } t pc n h p (.done status) :=
        busy.control rfl (fun _ old => old) nofun nofun nofun
      refine .busy after ⟨bell, head, rfl, congrArg (· + 1) tail, ?_, ?_, fetched, ?_, ?_⟩
        ⟨fun u k error report => ?_, fun k other completed => ?_, book.whole, book.fresh⟩
      · rw [Controller.post, tail, phase]
        rfl
      · rw [Controller.post, tail, phase]
        exact tags.post status
      · simp [Controller.post, tail, phase]
      · simp [Controller.post]
      · obtain ⟨below, other, completed, same⟩ := book.reported u k error report
        exact ⟨below, other, (update_of_ne below.ne _ s.ctrl.completed).trans completed, same⟩
      · rcases update_cases completed with ⟨-, ⟨⟩⟩ | ⟨-, completed⟩
        · exact seen
        · exact book.seen k other completed

/-! ## Whole runs -/

/-- A thread takes the tail only when no thread is between its tail and its last doorbell, and no command
ends with a status of type 4 and code 0, whose only bit is one that the driver masks out. -/
def Apart (s : Sys T) : Event T → Prop
  | .run t => (s.pc t).entering = true → ∀ u, (s.pc u).busy = false
  | .complete status => statusCode status ≠ 0 ∨ statusType status ≠ 4
  | _ => True

theorem Good.run (good : Good s) (allowed : Apart s (.run t)) (made : run s t = some s') : Good s' := by
  cases here : s.pc t with
  | idle =>
    rw [Nvme.run, here] at made
    cases made
  | loadCid | biodone =>
    rw [Nvme.run, here] at made
    cases made
    exact good.aside (by rw [here]; rfl) rfl (by simp) s.nextCid
  | storeCid cmd cid =>
    rw [Nvme.run, here] at made
    cases made
    exact good.aside (by rw [here]; rfl) rfl (by simp) (cid + 1)
  | loadTail cmd =>
    rw [Nvme.run, here] at made
    cases made
    exact good.enter (allowed (by rw [here]; rfl))
  | _ =>
    have inside : (s.pc t).busy = true := by rw [here]; rfl
    cases good with
    | rest rest => cases inside.symm.trans (rest.alone t)
    | @busy o pc n h p stage busy controls book =>
      by_cases same : t = o
      · subst same
        exact busy.run controls made book
      · cases inside.symm.trans (busy.alone t same)

theorem Good.step {e : Event T} (good : Good s) (allowed : Apart s e) (made : step disk s e = some s') : Good s' := by
  cases e with
  | strategy t minor bp =>
    simp only [Nvme.step] at made
    obtain ⟨idle, made⟩ := Option.ite_none_right_eq_some.mp made
    split at made
    all_goals
      cases made
      exact good.aside (by rw [idle]; rfl) rfl (by simp) s.nextCid
  | testIo t isWrite lba buf =>
    simp only [Nvme.step] at made
    obtain ⟨idle, ⟨⟩⟩ := Option.ite_none_right_eq_some.mp made
    exact good.aside (by rw [idle]; rfl) rfl (by simp) s.nextCid
  | run t => exact good.run allowed made
  | fetch => exact good.fetch made
  | complete status => exact good.complete allowed made

/-- Each call reports the outcome of its own completed command, an entry of the submission queue is
written only when the command it held was fetched, and what is fetched is the command a call built. -/
structure OwnResults (s : Sys T) : Prop where
  reported : ∀ t k error, s.pc t = .biodone (some k) error →
    ∃ status, s.ctrl.completed k = some status ∧ error = failed status
  kept : ∀ t k slot i, s.pc t = .storeSqe k slot i → ∀ j, s.holder slot = some j → (s.ctrl.fetched j).isSome ∨ j = k
  whole : ∀ k entry, s.ctrl.fetched k = some entry → entry = (s.cmd k).words

theorem Good.own (good : Good s) : OwnResults s := by
  cases good with
  | rest rest controls book =>
    refine ⟨fun t k error report => (book.reported t k error report).2, fun t k slot i here => ?_, book.whole⟩
    have idle := rest.alone t
    rw [here] at idle
    cases idle
  | @busy o pc n h p stage busy controls book =>
    refine ⟨fun t k error report => (book.reported t k error report).2, fun t k slot i here j holds => ?_, book.whole⟩
    by_cases same : t = o
    · obtain rfl := (congrArg s.pc same).symm.trans here |>.symm.trans busy.here
      obtain ⟨rfl, -⟩ := busy.fits
      exact busy.held slot j holds
    · have idle := busy.alone t same
      rw [here] at idle
      cases idle

theorem requests_report_own_result (disk : Disk) (reached : Run.Reach (step disk) Apart Booted s) : OwnResults s := by
  refine (reached.invariant (fun _ => Booted.good) ?_).own
  exact fun s e s' good allowed made => good.step allowed made

end

/-! ## Runs of two threads -/

def drive : Disk := ⟨true, 1, 2048, 1024⟩

def submits (t : Fin 2) (blkno : BitVec 64) : List (Event (Fin 2)) :=
  .strategy t 0 ⟨blkno, 512, true, 0x1000⟩ :: List.replicate 15 (.run t)

def polls (t : Fin 2) : List (Event (Fin 2)) := List.replicate 8 (.run t)

instance (s : Sys (Fin 2)) : (e : Event (Fin 2)) → Decidable (Apart s e)
  | .run t => inferInstanceAs (Decidable ((s.pc t).entering = true → ∀ u, (s.pc u).busy = false))
  | .complete status => inferInstanceAs (Decidable (statusCode status ≠ 0 ∨ statusType status ≠ 4))
  | .strategy .. => .isTrue trivial
  | .testIo .. => .isTrue trivial
  | .fetch => .isTrue trivial

theorem Booted.start (T : Type) : Booted (Sys.start T) := ⟨0, rfl⟩

/-- The first command fails, the second does not, and each call says so. -/
theorem requests_report_own_result_two : ∃ s : Sys (Fin 2), Run.Reach (step drive) Apart Booted s ∧
      (s.pc 0 = .biodone (some 0) true ∧ s.pc 1 = .biodone (some 1) false) ∧ OwnResults s := by
  refine Run.Reach.found_with (fun s => requests_report_own_result drive)
    (submits 0 7 ++ [.fetch, .complete 0x81] ++ polls 0 ++ submits 1 8 ++ [.fetch, .complete 0] ++ polls 1)
    (Booted.start (Fin 2)) ?_
  decide +kernel

/-- Three runs without the condition: a thread takes the completion of another thread's command for its own,
two threads write to one entry, and a failed command is reported as done. -/
theorem requests_mixed_up : (∃ s : Sys (Fin 2), Run.Reach (step drive) (fun _ _ => True) Booted s ∧
      s.pc 1 = .biodone (some 1) false ∧ s.ctrl.completed 1 = none) ∧
    (∃ s : Sys (Fin 2), Run.Reach (step drive) (fun _ _ => True) Booted s ∧
      s.pc 1 = .storeSqe 1 0 0 ∧ s.holder 0 = some 0 ∧ (s.ctrl.fetched 0).isNone) ∧
    ∃ s : Sys (Fin 2), Run.Reach (step drive) (fun _ _ => True) Booted s ∧
      s.pc 0 = .biodone (some 0) false ∧ (s.ctrl.completed 0).any failed := by
  have start := Booted.start (Fin 2)
  refine ⟨?_, ?_, ?_⟩
  · exact Run.Reach.found (submits 0 7 ++ submits 1 8 ++ [.fetch, .complete 0] ++ polls 1) start (by decide +kernel)
  · exact Run.Reach.found ((submits 0 7).take 12 ++ (submits 1 8).take 4) start (by decide +kernel)
  · exact Run.Reach.found (submits 0 7 ++ [.fetch, .complete 0x400] ++ polls 0) start (by decide +kernel)

end Kappara.Nvme
