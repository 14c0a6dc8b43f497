import Kappara.Vm.Confined

/-! The addresses an mmap hands out.

Mappings are placed one after another in the anonymous window. Nothing is mapped
from the next address on, as long as an mmap that has mapped a page gets all of its
pages: a call that stops half way leaves pages above the address it does not advance. -/

set_option autoImplicit false

namespace Kappara.Vm

open Function (update update_of_ne update_self)

variable {n : Nat} {s s' : Sys n} {boot : Fin 512 → BitVec 64} {a b c : Bool}

section Lookup

variable {vm vm' : VmMap} {va va' : Va} {free free' : List Page}

/-- The entry of the tables an address goes through. -/
def slot (va : Va) : Spot := .user (l2Idx va) (l3Idx va)

theorem lookup_slot (same : slot va = slot va') (vm : VmMap) : vm.lookup va = vm.lookup va' := by
  exact congrArg vm.page same

theorem slot_page (small : va.toNat < 2 ^ 30) (small' : va'.toNat < 2 ^ 30) (same : slot va = slot va') :
    va.toNat / 4096 = va'.toNat / 4096 := by
  simp only [slot, l2Idx, l3Idx, Fin.ofNat, Spot.user.injEq, Fin.mk.injEq] at same
  omega

theorem slot_of_page (same : va.toNat / 4096 = va'.toNat / 4096) : slot va = slot va' := by
  simp only [slot, l2Idx, l3Idx, Fin.ofNat, Spot.user.injEq, Fin.mk.injEq]
  omega

theorem mapUser4k_self (made : mapUser4k vm free va a b = (some vm', free')) (same : slot va' = slot va) :
    (vm'.lookup va').isSome = true := by
  rw [lookup_slot same, ← lookup_page]
  cases (mapUser4k_some made).2 with
  | table _ pages | fresh _ _ pages => simp [pages]

theorem mapUser4k_other (made : mapUser4k vm free va a b = (some vm', free')) (other : slot va' ≠ slot va) :
    vm'.lookup va' = vm.lookup va' := by
  rw [slot, slot] at other
  simp only [← lookup_page]
  cases (mapUser4k_some made).2 with
  | table _ pages | fresh _ _ pages => simp [pages, other]

theorem unmapUser4k_page (vm : VmMap) (free : List Page) (va : Va) :
    (unmapUser4k vm free va).1.page = update vm.page (slot va) none := by
  rcases unmapUser4k_cases vm free va with ⟨unmapped, same⟩ | ⟨p, _, _, pages⟩
  · rw [← lookup_page] at unmapped
    rw [same, slot, ← unmapped, Function.update_eq_self]
  · exact pages

theorem unmapUser4k_self (same : slot va' = slot va) : (unmapUser4k vm free va).1.lookup va' = none := by
  rw [lookup_slot same, ← lookup_page, unmapUser4k_page, slot, update_self]

theorem unmapUser4k_other (other : slot va' ≠ slot va) : (unmapUser4k vm free va).1.lookup va' = vm.lookup va' := by
  rw [slot] at other
  rw [← lookup_page, ← lookup_page, unmapUser4k_page, update_of_ne other]

theorem unmapUser4k_gone (gone : vm.lookup va' = none) : (unmapUser4k vm free va).1.lookup va' = none := by
  by_cases same : slot va' = slot va
  · exact unmapUser4k_self same
  · rw [unmapUser4k_other same, gone]

-- The allocator has the page, and the level-3 table where there is none yet.
def VmMap.grants (vm : VmMap) (free : List Page) (va : Va) (page table : Bool) : Bool :=
  page &&
    match vm.entries (l2Idx va) with
    | .table _ _ => 1 ≤ free.length
    | .block _ => table && 2 ≤ free.length

theorem grants_iff : vm.grants free va a b = true ↔ ∃ vm' free', mapUser4k vm free va a b = (some vm', free') := by
  cases region : vm.entries (l2Idx va) with
  | table l3 pages =>
    cases a <;> cases free <;> simp [VmMap.grants, mapUser4k, region, pmmAlloc]
  | block desc =>
    cases a <;> cases b <;> rcases free with _ | ⟨p, _ | ⟨q, free⟩⟩ <;> simp [VmMap.grants, mapUser4k, region, pmmAlloc]

end Lookup

variable {fields : Fields}

section Clear

variable {vm vm' : VmMap} {va va' : Va} {free free' : List Page}

/-- Nothing is mapped in the anonymous window from the map's next address on. -/
def Clear (vm : VmMap) : Prop := ∀ va : Va, (mmapBase vm).toNat ≤ va.toNat → va.toNat < Window.anon.stop.toNat →
    vm.lookup va = none

theorem anon_start : Window.anon.start.toNat = 0x22000000 := rfl

theorem anon_stop : Window.anon.stop.toNat = 0x2a000000 := rfl

theorem slot_off {w : Window} (other : w ≠ .anon) (inside : w.covers va) (low : Window.anon.start.toNat ≤ va'.toNat)
    (high : va'.toNat < Window.anon.stop.toNat) : slot va' ≠ slot va := by
  intro same
  have page := slot_page (by rw [anon_stop] at high; omega) (Window.covers_lt inside) same
  have bounds := w.bounds
  have from' := BitVec.le_def.mp inside.1
  have upto := BitVec.lt_def.mp inside.2
  cases Window.apart other with
  | inl off | inr off =>
    rw [BitVec.le_def] at off
    omega

theorem Clear.map {w : Window} (clear : Clear vm) (fields : vm.fields.Ok) (other : w ≠ .anon) (inside : w.covers va)
    (made : mapUser4k vm free va a b = (some vm', free')) : Clear vm' := by
  intro va' low high
  have base : mmapBase vm' = mmapBase vm := by rw [mmapBase, mmapBase, (mapUser4k_frame made).2]
  rw [base] at low
  have start := mmapBase_bounds fields
  rw [mapUser4k_other made (slot_off other inside (by rw [anon_start]; omega) high)]
  exact clear va' low high

theorem Clear.unmap (clear : Clear vm) : Clear (unmapUser4k vm free va).1 := by
  intro va' low high
  have base : mmapBase (unmapUser4k vm free va).1 = mmapBase vm := by
    rw [mmapBase, mmapBase, (unmapUser4k_frame vm free va).2]
  rw [base] at low
  exact unmapUser4k_gone (clear va' low high)

theorem Clear.set (clear : Clear vm) (same : fields.anonNext = vm.fields.anonNext) : Clear { vm with fields } := by
  intro va low high
  have base : mmapBase { vm with fields } = mmapBase vm := by rw [mmapBase, mmapBase, same]
  rw [base] at low
  exact clear va low high

theorem bootMap_clear (l0 l1 l2 : Page) : Clear (bootMap boot l0 l1 l2) := fun _ _ _ => rfl

end Clear

section Phases

variable {m parent child : Fin n} {length : Va} {backing : Backing} {old vm vm' pvm cvm : VmMap} {i : Nat}

section

variable (s : Sys n) (m : Fin n) (old : VmMap) (length : Va)

def mmapPages : Nat := (length.toNat + 4095) / 4096

-- What is left of an mmap when it has all pages.
def mmapDone (backing : Backing) : Prog n :=
  if backing = .file false then .done none
  else .set m { old.fields with anonNext := mmapBase old + alignUp length } (.done (some (mmapBase old)))

def AllClear : Prop := ∀ m vm, s.maps m = some vm → Clear vm

def ClearBut : Prop := ∀ m' vm, m' ≠ m → s.maps m' = some vm → Clear vm

def NoMmap : Prop := ∀ m length backing, s.call ≠ some (.mmap m length backing)

/-- An mmap with the first pages of the range it found empty. -/
structure Filling (backing : Backing) (old vm : VmMap) (i : Nat) : Prop where
  call : s.call = some (.mmap m length backing)
  before : s.before m = some old
  live : s.maps m = some vm
  clear : Clear old
  others : ClearBut s m
  base : mmapBase vm = mmapBase old
  fields : old.fields.Ok
  sum : (mmapBase old + alignUp length).toNat = (mmapBase old).toNat + 4096 * mmapPages length
  inside : (mmapBase old).toNat + 4096 * mmapPages length ≤ Window.anon.stop.toNat
  asked : 0 < length.toNat
  below : i ≤ mmapPages length
  opens : backing = .file false → i = 0
  got : ∀ va : Va, (mmapBase old).toNat ≤ va.toNat → va.toNat < (mmapBase old).toNat + 4096 * i →
    (vm.lookup va).isSome = true
  rest : ∀ va : Va, (mmapBase old).toNat + 4096 * i ≤ va.toNat → va.toNat < Window.anon.stop.toNat → vm.lookup va = none
  started : s.events = [] → i = 0

def Granted (vm : VmMap) (base length : Va) : Prop :=
  ∀ va : Va, base.toNat ≤ va.toNat → va.toNat < base.toNat + length.toNat →
    Window.anon.covers va ∧ (vm.lookup va).isSome = true ∧ old.lookup va = none

-- A fork from its first clone on; it gives the child the parent's fields last.
inductive Forking (parent child : Fin n) (fields : Fields) : Prog n → Prop where
  | clone {va : Va} {ok : Prog n} : Forking parent child fields ok →
      Forking parent child fields (.clone parent child va ok (.destroy child (.done none)))
  | set {run : Prog n} : run = .destroy child (.done none) ∨ (∃ tid, run = .done (some tid)) →
      Forking parent child fields (.set child fields run)

def anonOf (maps : Fin n → Option VmMap) (m : Fin n) : Va := ((maps m).map fun vm => vm.fields.anonNext).getD 0

def Off (va : Va) : Prop := ∃ w : Window, w ≠ .anon ∧ w.covers va

/-- Where the call in progress stands with the anonymous window. -/
inductive Phase : Prop where
  | idle {ret : Option Va} : s.pending = .done ret → AllClear s →
      (∀ m length backing, s.call = some (.mmap m length backing) → ret = none) → Phase
  | plain : AllClear s → (∀ m vm, s.maps m = some vm → vm.fields.anonNext = anonOf s.before m) →
      s.pending.All Off (fun m f => f.anonNext = anonOf s.before m) → NoMmap s → Phase
  | asked {m : Fin n} {vm : VmMap} {length : Va} {backing : Backing} : s.call = some (.mmap m length backing) →
      s.maps = s.before → s.maps m = some vm → AllClear s → mmapFits vm length backing = true →
      s.pending = mmap m vm length backing → Phase
  | filling {m : Fin n} {length : Va} {backing : Backing} {old vm : VmMap} {i : Nat} :
      Filling s m length backing old vm i →
      s.pending = allocPages m (mmapDone m old length backing) (.done none) (mmapBase old + BitVec.ofNat 64 (4096 * i))
        (mmapPages length - i) → Phase
  | mapped {m : Fin n} {length base : Va} {backing : Backing} {old vm : VmMap} :
      s.call = some (.mmap m length backing) → s.before m = some old → s.maps m = some vm → AllClear s →
      s.pending = .done (some base) → Granted old vm base length → Phase
  | forked {parent child : Fin n} {pvm : VmMap} {prog : Prog n} : AllClear s → s.maps parent = some pvm →
      s.maps child = none → s.pending = .create child prog (.done none) → Forking parent child pvm.fields prog →
      NoMmap s → Phase
  | cloning {parent child : Fin n} {pvm cvm : VmMap} : ClearBut s child → parent ≠ child → s.maps parent = some pvm →
      s.maps child = some cvm → (∀ va, Window.anon.covers va → (cvm.lookup va).isSome = true →
        (pvm.lookup va).isSome = true) →
      Forking parent child pvm.fields s.pending → NoMmap s → Phase
  | dropping {m : Fin n} : ClearBut s m → s.pending = .destroy m (.done none) → NoMmap s → Phase

end

theorem Filling.unfinished (fill : Filling s m length backing old vm i) {ret : Option Va} :
    allocPages m (mmapDone m old length backing) (.done none) (mmapBase old + BitVec.ofNat 64 (4096 * i))
      (mmapPages length - i) ≠ .done ret := by
  have asked := fill.asked
  cases left : mmapPages length - i with
  | succ left => simp [allocPages]
  | zero =>
    rw [allocPages, mmapDone]
    split
    next closed =>
      have none := fill.opens closed
      rw [mmapPages] at left
      omega
    · simp

theorem mmap_ne_some {base : Va} : mmap m vm length backing ≠ .done (some base) := by
  rw [mmap]
  split <;> simp

theorem Phase.clear {ret : Option Va} (phase : Phase s) (done : s.pending = .done ret) : AllClear s := by
  cases phase with
  | idle _ clear | plain clear | asked _ _ _ clear | mapped _ _ _ clear | forked clear => exact clear
  | filling fill pending => exact absurd (pending.symm.trans done) fill.unfinished
  | cloning _ _ _ _ _ forking =>
    rw [done] at forking
    cases forking
  | dropping _ pending =>
    rw [done] at pending
    cases pending

theorem Phase.granted {base : Va} (phase : Phase s) (call : s.call = some (.mmap m length backing))
    (done : s.pending = .done (some base)) :
    ∃ old vm, s.before m = some old ∧ s.maps m = some vm ∧ Granted old vm base length := by
  cases phase with
  | idle pending _ failed =>
    rw [done] at pending
    cases pending
    cases failed _ _ _ call
  | plain _ _ _ other | forked _ _ _ _ _ other | cloning _ _ _ _ _ _ other | dropping _ _ other =>
    exact absurd call (other _ _ _)
  | asked _ _ _ _ _ pending => exact absurd (pending.symm.trans done) mmap_ne_some
  | filling fill pending => exact absurd (pending.symm.trans done) fill.unfinished
  | mapped call' before live _ pending granted =>
    rw [call] at call'
    rw [done] at pending
    cases call'
    cases pending
    exact ⟨_, _, before, live, granted⟩

end Phases

/-- An mmap that has mapped a page gets the rest of its pages, and the file behind it can be opened. -/
def keepsUp (s : Sys n) : Act n → Bool
  | .begin _ => true
  | .next a b _ =>
    match s.call, s.pending with
    | some (.mmap _ _ backing), .map m va _ _ =>
      (s.maps m).all fun vm => if vm.grants s.free va a b then backing != .file false else s.events.isEmpty
    | _, _ => true

section Mmap

variable {m : Fin n} {length va : Va} {backing : Backing} {old vm vm' : VmMap} {i : Nat} {free : List Page}
  {ok : Prog n}

theorem ClearBut.update {vm : Option VmMap} (others : ClearBut s m) (maps : s'.maps = update s.maps m vm) :
    ClearBut s' m := by
  intro m' vm' other live
  rw [maps, update_of_ne other] at live
  exact others m' vm' other live

theorem AllClear.update {vm : Option VmMap} (others : ClearBut s m) (maps : s'.maps = update s.maps m vm)
    (clear : ∀ vm', vm = some vm' → Clear vm') : AllClear s' := by
  intro m' vm' live
  by_cases same : m' = m
  · subst same
    rw [maps, update_self] at live
    exact clear vm' live
  · exact others.update maps m' vm' same live

theorem mmapBase_set {next : Va} (used : next ≠ 0) :
    mmapBase { vm with fields := { fields with anonNext := next } } = next :=
  if_neg used

theorem AllClear.but (clear : AllClear s) (m : Fin n) : ClearBut s m := fun m' vm _ live => clear m' vm live

theorem Filling.clear_start (fill : Filling s m length backing old vm 0) : AllClear s := by
  intro m' vm' live
  by_cases same : m' = m
  · subst same
    have here := fill.live
    rw [live] at here
    cases here
    intro va low high
    rw [fill.base] at low
    exact fill.rest va (by omega) high
  · exact fill.others m' vm' same live

theorem Filling.next (fill : Filling s m length backing old vm i) (more : i < mmapPages length)
    (place : va = mmapBase old + BitVec.ofNat 64 (4096 * i)) (opens : backing ≠ .file false)
    (placed : mapUser4k vm s.free va a b = (some vm', free)) :
    Filling ((s.put m (some vm') free ok).log (.map va)) m length backing old vm' (i + 1) := by
  have inside := fill.inside
  rw [anon_stop] at inside
  have here : va.toNat = (mmapBase old).toNat + 4096 * i := by
    rw [place, BitVec.toNat_add, BitVec.toNat_ofNat]
    omega
  have aligned := (mmapBase_bounds fill.fields).2.2
  have small : va.toNat < 2 ^ 30 := by omega
  constructor
  case call => exact fill.call
  case before => exact fill.before
  case live => simp [Sys.log, Sys.put]
  case clear => exact fill.clear
  case others => exact fill.others.update rfl
  case base => rw [mmapBase, (mapUser4k_frame placed).2, ← mmapBase, fill.base]
  case fields => exact fill.fields
  case sum => exact fill.sum
  case inside => exact fill.inside
  case asked => exact fill.asked
  case below => exact more
  case opens => exact fun closed => absurd closed opens
  case got =>
    intro va' low high
    rw [Nat.mul_add_one, ← Nat.add_assoc] at high
    have small' : va'.toNat < 2 ^ 30 := by omega
    by_cases same : va'.toNat / 4096 = va.toNat / 4096
    · exact mapUser4k_self placed (slot_of_page same)
    · rw [mapUser4k_other placed fun slot => same (slot_page small' small slot)]
      exact fill.got va' low (by omega)
  case rest =>
    intro va' low
    have apart : va'.toNat / 4096 ≠ va.toNat / 4096 := by omega
    have past : (mmapBase old).toNat + 4096 * i ≤ va'.toNat := by omega
    intro high
    have small' : va'.toNat < 2 ^ 30 := Nat.lt_trans high (by decide)
    rw [mapUser4k_other placed fun slot => apart (slot_page small' small slot)]
    exact fill.rest va' past high
  case started => simp [Sys.log]

theorem Filling.finish (fill : Filling s m length backing old vm (mmapPages length)) :
    Phase (s.put m (some { vm with fields := { old.fields with anonNext := mmapBase old + alignUp length } }) s.free
      (.done (some (mmapBase old)))) := by
  have bounds := mmapBase_bounds fill.fields
  have sum := fill.sum
  have inside := fill.inside
  have moved : mmapBase old + alignUp length ≠ 0 := by
    intro zero
    have none : (0 : Va).toNat = 0 := rfl
    rw [zero] at sum
    omega
  refine .mapped fill.call fill.before (update_self m _ s.maps) (.update fill.others rfl ?_) rfl ?_
  · rintro _ ⟨⟩ va low high
    rw [mmapBase_set moved, sum] at low
    exact fill.rest va low high
  · intro va low high
    have reach : length.toNat ≤ 4096 * mmapPages length := by
      rw [mmapPages]
      omega
    refine ⟨⟨?_, ?_⟩, fill.got va low (by omega), fill.clear va low (by omega)⟩
    · rw [BitVec.le_def, anon_start]
      omega
    · rw [BitVec.lt_def]
      omega

theorem Phase.step_filling (fill : Filling s m length backing old vm i)
    (pending : s.pending = allocPages m (mmapDone m old length backing) (.done none)
      (mmapBase old + BitVec.ofNat 64 (4096 * i)) (mmapPages length - i))
    (keeps : keepsUp s (.next a b c) = true) (made : step boot s (.next a b c) = some s') : Phase s' := by
  cases left : mmapPages length - i with
  | zero =>
    have all : i = mmapPages length := Nat.le_antisymm fill.below (Nat.le_of_sub_eq_zero left)
    subst all
    have opens : backing ≠ .file false := by
      intro closed
      have none := fill.opens closed
      have asked := fill.asked
      rw [mmapPages] at none
      omega
    rw [left, allocPages, mmapDone, if_neg opens] at pending
    simp only [step, pending, fill.live, Option.map_some, Option.some.injEq] at made
    subst made
    exact fill.finish
  | succ rest =>
    rw [left, allocPages] at pending
    simp only [step, pending, fill.live, Option.map_some, Option.some.injEq] at made
    subst made
    simp only [keepsUp, fill.call, pending, fill.live, Option.all_some] at keeps
    rw [mapPage]
    split
    next free refused =>
      have denied : ¬vm.grants s.free (mmapBase old + BitVec.ofNat 64 (4096 * i)) a b = true := by
        rw [grants_iff]
        rintro ⟨vm', free', granted⟩
        rw [refused] at granted
        cases granted
      rw [if_neg denied, List.isEmpty_iff] at keeps
      have none := fill.started keeps
      subst none
      exact .idle rfl fill.clear_start fun _ _ _ _ => rfl
    next vm' free placed =>
      rw [if_pos (grants_iff.mpr ⟨vm', free, placed⟩), bne_iff_ne] at keeps
      refine .filling (fill.next (by omega) rfl keeps placed) ?_
      have next : mmapPages length - (i + 1) = rest := by omega
      rw [next, Nat.mul_add_one, BitVec.ofNat_add, ← BitVec.add_assoc]
      rfl

theorem Phase.step_asked (confined : Confined boot s) (call : s.call = some (.mmap m length backing))
    (same : s.maps = s.before) (live : s.maps m = some vm) (clear : AllClear s)
    (fit : mmapFits vm length backing = true)
    (pending : s.pending = mmap m vm length backing) (made : step boot s (.next a b c) = some s') : Phase s' := by
  have fields := (confined.maps m vm live).fields
  have bounds := mmapBase_bounds fields
  by_cases refused : length = 0 ∨ backing = .refused
  · rw [mmap, if_pos refused] at pending
    simp only [step, pending] at made
    cases made
  rw [mmap, if_neg refused] at pending
  rw [not_or] at refused
  simp only [mmapFits, Bool.or_eq_true, beq_iff_eq, refused.2, false_or, decide_eq_true_eq] at fit
  simp only [step, pending, live, Option.map_some, Option.some.injEq] at made
  subst made
  have used : mmapBase vm ≠ 0 := by
    intro zero
    rw [zero] at bounds
    exact absurd bounds.1 (by decide)
  have clear' : Clear { vm with fields := { vm.fields with anonNext := mmapBase vm } } := by
    intro va low high
    rw [mmapBase_set used] at low
    exact clear m vm live va low high
  by_cases full : anonVa + anonSize < mmapBase vm + alignUp length
  · refine .idle (if_pos full) (.update (clear.but m) rfl ?_) fun _ _ _ _ => rfl
    rintro _ ⟨⟩
    exact clear'
  obtain ⟨sum, count, inside⟩ := mmap_window fields fit full
  have fill : ∀ pending, Filling (s.put m (some { vm with fields := { vm.fields with anonNext := mmapBase vm } }) s.free
      pending) m length backing vm { vm with fields := { vm.fields with anonNext := mmapBase vm } } 0 := by
    intro pending
    constructor
    case call => exact call
    case before => exact same ▸ live
    case live => exact update_self m _ s.maps
    case clear => exact clear m vm live
    case others => exact (clear.but m).update rfl
    case base => exact mmapBase_set used
    case fields => exact fields
    case sum =>
      rw [mmapPages]
      omega
    case inside => exact inside
    case asked =>
      have some := refused.1
      rw [← BitVec.toNat_inj] at some
      exact Nat.pos_of_ne_zero some
    case below => exact Nat.zero_le _
    case opens => exact fun _ => rfl
    case got => omega
    case rest =>
      intro va low high
      exact clear m vm live va (by omega) high
    case started => exact fun _ => rfl
  refine .filling (fill _) ?_
  rw [BitVec.add_zero, Nat.sub_zero]
  exact (if_neg full).trans (by rw [count, mmapPages, mmapDone])

end Mmap

section Fork

variable {m parent child : Fin n} {pvm cvm vm : VmMap} {ok : Prog n}

theorem clonePages_forking {va : Va} {count : Nat} (forking : Forking parent child fields ok) :
    Forking parent child fields (clonePages parent child ok (.destroy child (.done none)) va count) := by
  induction count generalizing va with
  | zero => exact forking
  | succ count ih => exact .clone ih

theorem fork_forking (parent child : Fin n) (vm : VmMap) (pc : Va) (spawned : Spawn) :
    fork parent child vm pc spawned = .done none ∨
      ∃ prog, fork parent child vm pc spawned = .create child prog (.done none) ∧
      Forking parent child vm.fields prog := by
  rw [fork]
  split
  · exact .inl rfl
  · split
    · exact .inl rfl
    · refine .inr ⟨_, rfl, ?_⟩
      iterate 7 apply clonePages_forking
      exact .set (forkSpawn_cases spawned _)

section

variable (made : step boot s (.next a b c) = some s')
include made

theorem Phase.step_forked {prog : Prog n} (clear : AllClear s) (live : s.maps parent = some pvm)
    (dead : s.maps child = none) (pending : s.pending = .create child prog (.done none))
    (forking : Forking parent child pvm.fields prog) (other : NoMmap s) : Phase s' := by
  have apart : parent ≠ child := by
    rintro rfl
    rw [live] at dead
    cases dead
  simp only [step, pending, dead, Option.isSome_none, Bool.false_eq_true, if_false] at made
  rcases vmMapCreate_cases boot s.free a b c with ⟨free, refused, _⟩ | ⟨l0, l1, l2, rest, _, created⟩
  · simp only [refused, Option.some.injEq] at made
    subst made
    exact .idle rfl clear fun _ _ _ call => absurd call (other _ _ _)
  · simp only [created, Option.some.injEq] at made
    subst made
    refine .cloning ((clear.but child).update rfl) apart ?_ (update_self child _ s.maps) ?_ forking other
    · exact (update_of_ne apart _ s.maps).trans live
    · intro va _ mapped
      cases mapped

theorem Phase.step_cloning (confined : Confined boot s) (others : ClearBut s child) (apart : parent ≠ child)
    (parentLive : s.maps parent = some pvm) (childLive : s.maps child = some cvm)
    (subset : ∀ va, Window.anon.covers va → (cvm.lookup va).isSome = true → (pvm.lookup va).isSome = true)
    (forking : Forking parent child pvm.fields s.pending) (other : NoMmap s) : Phase s' := by
  generalize pending : s.pending = prog at forking
  cases forking with
  | @clone va ok forking =>
    simp only [step, pending, parentLive, childLive] at made
    split at made
    next present =>
      cases made
      rw [mapPage]
      split
      · exact .dropping others rfl other
      next vm' free placed =>
        refine .cloning (others.update rfl) apart ?_ (update_self child _ s.maps) ?_ forking other
        · exact (update_of_ne apart _ s.maps).trans parentLive
        · intro va' inside mapped
          by_cases same : slot va' = slot va
          · rw [lookup_slot same]
            exact present
          · rw [mapUser4k_other placed same] at mapped
            exact subset va' inside mapped
    · cases made
      exact .cloning others apart parentLive childLive subset forking other
  | set run =>
    simp only [step, pending, childLive, Option.map_some, Option.some.injEq] at made
    subst made
    rcases run with rfl | ⟨tid, rfl⟩
    · exact .dropping (others.update rfl) rfl other
    · refine .idle rfl (.update others rfl ?_) fun _ _ _ call => absurd call (other _ _ _)
      rintro _ ⟨⟩ va low high
      have start := mmapBase_bounds (confined.maps parent pvm parentLive).fields
      have none := others parent pvm apart parentLive va low high
      by_contra mapped
      have copied := subset va ⟨Nat.le_trans start.1 low, high⟩ (Option.isSome_iff_ne_none.mpr mapped)
      rw [none] at copied
      cases copied

theorem Phase.step_dropping (others : ClearBut s m) (pending : s.pending = .destroy m (.done none)) (other : NoMmap s) :
    Phase s' := by
  simp only [step, pending] at made
  obtain ⟨vm, _, rfl⟩ := Option.map_eq_some_iff.mp made
  refine .idle rfl (.update others rfl ?_) fun _ _ _ call => absurd call (other _ _ _)
  rintro _ ⟨⟩

end

end Fork

end Kappara.Vm
