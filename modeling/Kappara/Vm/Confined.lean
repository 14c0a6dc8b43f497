import Kappara.Vm.Steps
import Kappara.Vm.Windows

/-! Which addresses a call maps, and the level-2 entries it leaves alone.

A call is laid out as a program before it runs, so the addresses it can map are a
property of that program. Under the condition on wrapping sums all of them lie in a
user window, and every entry of level 2 outside the windows stays the boot entry. -/

set_option autoImplicit false

namespace Kappara.Vm

open BitVec (add_assoc le_def lt_def not_lt ofNat_add toNat_add)

variable {n : Nat} {s s' : Sys n} {P : Va → Prop} {Q : Fin n → Fields → Prop} {m parent child : Fin n}
  {ok fail : Prog n} {va addr length sp : Va}

/-- Every address a program maps and all fields it gives a map satisfy their predicates. -/
inductive Prog.All (P : Va → Prop) (Q : Fin n → Fields → Prop) : Prog n → Prop where
  | done {ret : Option Va} : All P Q (.done ret)
  | create {m : Fin n} {ok fail : Prog n} : Q m noFields → All P Q ok → All P Q fail → All P Q (.create m ok fail)
  | map {m : Fin n} {va : Va} {ok fail : Prog n} : P va → All P Q ok → All P Q fail → All P Q (.map m va ok fail)
  | clone {parent child : Fin n} {va : Va} {ok fail : Prog n} : P va → All P Q ok → All P Q fail →
      All P Q (.clone parent child va ok fail)
  | unmap {m : Fin n} {va : Va} {rest : Prog n} : All P Q rest → All P Q (.unmap m va rest)
  | read {src : Source} {off : Va} {len : Nat} {rest : Prog n} : All P Q rest → All P Q (.read src off len rest)
  | copyin {m : Fin n} {va off : Va} {src : Source} {len : Nat} {ok fail : Prog n} : All P Q ok → All P Q fail →
      All P Q (.copyin m va src off len ok fail)
  | set {m : Fin n} {fields : Fields} {rest : Prog n} : Q m fields → All P Q rest → All P Q (.set m fields rest)
  | destroy {m : Fin n} {rest : Prog n} : All P Q rest → All P Q (.destroy m rest)

theorem Prog.all_ite {c : Prop} {_ : Decidable c} {one two : Prog n} (yes : c → one.All P Q) (no : ¬c → two.All P Q) :
    (if c then one else two).All P Q := by
  by_cases here : c
  · rw [if_pos here]
    exact yes here
  · rw [if_neg here]
    exact no here

open Prog (all_ite)

theorem Mapping.all (mapping : Mapping s m va ok fail) (all : s.pending.All P Q) :
    P va ∧ ok.All P Q ∧ fail.All P Q := by
  cases mapping with
  | map pending | clone pending =>
    rw [pending] at all
    cases all
    exact ⟨‹_›, ‹_›, ‹_›⟩

theorem Moved.all {boot : Fin 512 → BitVec 64} {a b : Bool} (moved : Moved boot s a b s') (all : s.pending.All P Q) :
    s'.pending.All P Q := by
  cases moved with
  | full mapping => exact (mapping.all all).2.2
  | mapped mapping => exact (mapping.all all).2.1
  | refused pending | created pending | skipped pending | unmapped pending | read pending | copied pending
    | uncopied pending | set pending | destroyed pending =>
    rw [pending] at all
    cases all
    assumption

section Loops

variable {count : Nat}

section

variable (inside : ∀ k < count, P (va + BitVec.ofNat 64 (4096 * k))) (done : ok.All P Q) (failed : fail.All P Q)
include inside done failed

theorem allocPages_all : (allocPages m ok fail va count).All P Q := by
  induction count generalizing va with
  | zero => exact done
  | succ count ih =>
    refine .map (by simpa using inside 0 (Nat.succ_pos count)) (ih ?_) failed
    intro k below
    have next := inside (k + 1) (Nat.succ_lt_succ below)
    rwa [Nat.mul_add_one, Nat.add_comm, ofNat_add, ← add_assoc] at next

theorem clonePages_all : (clonePages parent child ok fail va count).All P Q := by
  induction count generalizing va with
  | zero => exact done
  | succ count ih =>
    refine .clone (by simpa using inside 0 (Nat.succ_pos count)) (ih ?_) failed
    intro k below
    have next := inside (k + 1) (Nat.succ_lt_succ below)
    rwa [Nat.mul_add_one, Nat.add_comm, ofNat_add, ← add_assoc] at next

end

theorem unmapPages_all {rest : Prog n} (done : rest.All P Q) : (unmapPages m rest va count).All P Q := by
  induction count generalizing va with
  | zero => exact done
  | succ count ih => exact .unmap ih

end Loops

section Loaders

variable {l : Loader n}

-- The segments the loop comes to all fit; it stops at one that the window test refuses.
def Loader.fitsFrom (l : Loader n) : Nat → Nat → Bool
  | _, 0 => true
  | i, left + 1 =>
    let ph := l.img.phdr i
    let va := ph.vaddr + l.base
    if ph.load then
      if va < l.lo ∨ l.hi < va + ph.memsz then true else Vm.fits va ph.memsz && l.fitsFrom (i + 1) left
    else l.fitsFrom (i + 1) left

def Loader.fits (l : Loader n) : Bool := l.fitsFrom 0 l.img.ehdr.phnum

-- No segment is refused by the window test.
def Loader.acceptsFrom (l : Loader n) : Nat → Nat → Bool
  | _, 0 => true
  | i, left + 1 =>
    let ph := l.img.phdr i
    let va := ph.vaddr + l.base
    !(ph.load && (va < l.lo || l.hi < va + ph.memsz)) && l.acceptsFrom (i + 1) left

def Loader.accepts (l : Loader n) : Bool := l.acceptsFrom 0 l.img.ehdr.phnum

/-- The loader's window is made of whole pages below the first gigabyte, and its addresses are allowed. -/
structure Loader.Bounded (l : Loader n) (P : Va → Prop) : Prop where
  low : 4096 ∣ l.lo.toNat
  high : 4096 ∣ l.hi.toNat
  small : l.hi.toNat < 2 ^ 30
  inside : ∀ va, l.lo ≤ va → va < l.hi → P va

theorem Window.bounded {w : Window} (lo : l.lo = w.start) (hi : l.hi = w.stop) (inside : ∀ va, w.covers va → P va) :
    l.Bounded P where
  low := lo ▸ w.bounds.1
  high := hi ▸ w.bounds.2.1
  small := hi ▸ w.bounds.2.2
  inside va low high := inside va ⟨lo ▸ low, hi ▸ high⟩

theorem segment_pages {memsz : Va} {k : Nat} (bounded : l.Bounded P) (above : l.lo ≤ va) (below : va + memsz ≤ l.hi)
    (fit : Vm.fits va memsz = true) (here : k < segPages va memsz) : P (alignDown va + BitVec.ofNat 64 (4096 * k)) := by
  have small := bounded.small
  rcases segPages_inside small bounded.low bounded.high above below fit with none | ⟨low, high⟩
  · omega
  have place : (alignDown va + BitVec.ofNat 64 (4096 * k)).toNat = (alignDown va).toNat + 4096 * k := by
    rw [toNat_add, BitVec.toNat_ofNat]
    omega
  apply bounded.inside
  · rw [le_def]
    omega
  · rw [lt_def]
    omega

theorem segments_all {i left : Nat} (bounded : l.Bounded P) (fit : l.fitsFrom i left = true)
    (done : l.acceptsFrom i left = true → ok.All P Q) (failed : fail.All P Q) :
    (segments l ok fail i left).All P Q := by
  induction left generalizing i with
  | zero => exact done rfl
  | succ left ih =>
    rw [Loader.fitsFrom] at fit
    rw [Loader.acceptsFrom] at done
    simp only [segments, segment]
    generalize l.img.phdr i = ph at *
    refine .read (all_ite (fun loads => ?_) (fun skips => ?_))
    · rw [if_pos loads] at fit
      refine all_ite (fun _ => failed) (fun window => ?_)
      rw [if_neg window, Bool.and_eq_true] at fit
      rw [not_or, not_lt, not_lt] at window
      have rest := ih fit.2 (fun accepted => done (by simpa [window] using accepted))
      apply allocPages_all
      · intro k here
        exact segment_pages bounded window.1 window.2 fit.1 here
      · exact all_ite (fun _ => rest) (fun _ => .copyin rest failed)
      · exact failed
    · rw [if_neg skips] at fit
      exact ih fit (fun accepted => done (by simpa [skips] using accepted))

theorem load_all (bounded : l.Bounded P) (fit : l.fits = true) (done : l.accepts = true → ok.All P Q)
    (failed : fail.All P Q) : (load l ok fail).All P Q :=
  segments_all bounded fit done failed

end Loaders

section Execve

variable {exec : Exec} {args : List Nat}

theorem pushWords_all {rest : Prog n} {words : List Nat} (done : rest.All P Q) :
    (pushWords m rest sp words).All P Q := by
  induction words generalizing sp with
  | nil => exact done
  | cons len words ih => exact .copyin ih ih

theorem pushStrings_all {ok : Va → Prog n} (done : ∀ sp, (ok sp).All P Q) (failed : fail.All P Q) :
    (pushStrings m fail ok sp args).All P Q := by
  induction args generalizing sp with
  | nil => exact done sp
  | cons len args ih => exact .copyin ih failed

def execLoader (m : Fin n) (file : Image) : Loader n :=
  { m, src := .file, img := file, base := if file.ehdr.type = etDyn then execVa else 0, lo := execVa,
    hi := execVa + execSize }

def ldLoader (m : Fin n) (ld : Image) : Loader n :=
  { m, src := .ld, img := ld, base := 0, lo := ldVa, hi := ldVa + ldSize }

def libcLoader (m : Fin n) (libc : Image) : Loader n :=
  { m, src := .libc, img := libc, base := libcVa, lo := libcVa, hi := libcVa + libcSize }

-- The images that come to be loaded, each where the one before has gone through.
def interpFits (m : Fin n) (exec : Exec) : Bool :=
  if exec.ld.size < 64 ∨ !exec.ld.isElf ∨ exec.ld.ehdr.type ≠ etExec then true
  else
    (ldLoader m exec.ld).fits &&
      (!(ldLoader m exec.ld).accepts ||
        if exec.ld.ehdr.entry = 0 ∨ exec.libc.ehdr.type ≠ etDyn ∨ exec.libc.ehdr.machine ≠ 0xb7 then true
        else (libcLoader m exec.libc).fits)

def execFits (m : Fin n) (exec : Exec) : Bool :=
  exec.file.all fun file =>
    let eh := file.ehdr
    if file.size < 64 ∨ !file.isElf ∨ (eh.type ≠ etExec ∧ eh.type ≠ etDyn) ∨ eh.phoff = 0 ∨ eh.phnum = 0 then true
    else (execLoader m file).fits && (!(eh.type == etDyn && (execLoader m file).accepts) || interpFits m exec)

theorem execInterp_all (ldWindow : ∀ va, Window.ld.covers va → P va) (libcWindow : ∀ va, Window.libc.covers va → P va)
    (fit : interpFits m exec = true) (done : ok.All P Q) (failed : fail.All P Q) :
    (execInterp m exec ok fail).All P Q := by
  have ld : (ldLoader m exec.ld).Bounded P := Window.bounded rfl rfl ldWindow
  have libc : (libcLoader m exec.libc).Bounded P := Window.bounded rfl rfl libcWindow
  rw [interpFits] at fit
  refine all_ite (fun _ => failed) (fun elf => ?_)
  rw [if_neg elf, Bool.and_eq_true, Bool.or_eq_true] at fit
  refine load_all ld fit.1 (fun accepted => all_ite (fun _ => failed) (fun dynamic => ?_)) failed
  have rest := fit.2.resolve_left (by rw [Bool.not_eq_true', Bool.not_eq_false]; exact accepted)
  rw [if_neg dynamic] at rest
  exact load_all libc rest (fun _ => done) failed

theorem stack_all (inside : ∀ va, Window.stack.covers va → P va) (done : ok.All P Q) (failed : fail.All P Q) :
    (allocPages m ok fail execStackVa (pageCount execStackSize)).All P Q := by
  refine allocPages_all (fun k below => inside _ ?_) done failed
  have low : Window.stack.start.toNat ≤ execStackVa.toNat := by decide
  have high : execStackVa.toNat + 4096 * pageCount execStackSize ≤ Window.stack.stop.toNat := by decide
  exact Window.covers_add low high below

theorem execve_all (windows : ∀ w : Window, w ≠ .anon → ∀ va, w.covers va → P va) (made : Q m noFields)
    (stored : Q m { noFields with heapBrk := execHeapVa }) (fit : execFits m exec = true) :
    (execve m exec).All P Q := by
  rw [execve]
  cases opened : exec.file with
  | none => exact .done
  | some file =>
    rw [execFits, opened, Option.all_some] at fit
    have failed : (Prog.destroy m (.done none) : Prog n).All P Q := .destroy .done
    have runs : (execSpawn exec.spawned (.destroy m (.done none))).All P Q := by
      rcases execSpawn_cases exec.spawned (.destroy m (.done none)) with same | ⟨tid, same⟩ <;> rw [same]
      · exact failed
      · exact .done
    have stack : (allocPages m (.set m { noFields with heapBrk := execHeapVa } (execArgs m exec.args
        (execSpawn exec.spawned (.destroy m (.done none))) (.destroy m (.done none)))) (.destroy m (.done none))
          execStackVa
        (pageCount execStackSize)).All P Q :=
      stack_all (windows .stack (by decide)) (.set stored (pushStrings_all (fun _ => pushWords_all runs) failed)) failed
    have bounded : (execLoader m file).Bounded P := Window.bounded rfl rfl (windows .exec (by decide))
    refine all_ite (fun _ => .done) (fun elf => ?_)
    rw [if_neg elf, Bool.and_eq_true, Bool.or_eq_true] at fit
    refine .create made (load_all bounded fit.1 (fun accepted => all_ite (fun dynamic => ?_) (fun _ => stack))
      failed) .done
    have taken : (execLoader m file).accepts = true := accepted
    have interp := fit.2.resolve_left (by simp [dynamic, taken])
    exact execInterp_all (windows .ld (by decide)) (windows .libc (by decide)) interp stack failed

end Execve

section Others

variable {vm : VmMap}

structure Fields.Ok (f : Fields) : Prop where
  brk : f.heapBrk = 0 ∨ execHeapVa ≤ f.heapBrk ∧ f.heapBrk ≤ execHeapVa + execHeapSize
  anon : f.anonNext = 0 ∨ anonVa ≤ f.anonNext ∧ f.anonNext ≤ anonVa + anonSize ∧ 4096 ∣ f.anonNext.toNat

theorem noFields_ok : noFields.Ok := ⟨.inl rfl, .inl rfl⟩

theorem fork_all {pc : Va} {spawned : Spawn} (windows : ∀ (w : Window) va, w.covers va → P va)
    (made : Q child noFields) (stored : Q child vm.fields) : (fork parent child vm pc spawned).All P Q := by
  have failed : (Prog.destroy child (.done none) : Prog n).All P Q := .destroy .done
  have range : ∀ (w : Window) (size : Va) (ok : Prog n), w.stop = w.start + size → ok.All P Q →
      (clonePages parent child ok (.destroy child (.done none)) w.start (rounds w.start (w.start + size))).All P Q := by
    intro w size ok stop done
    refine clonePages_all (fun k below => windows w _ ?_) done failed
    have bounds := w.bounds
    rw [← stop] at below
    refine Window.covers_add le_rfl ?_ below
    rw [rounds]
    rw [rounds] at below
    omega
  refine all_ite (fun _ => .done) (fun _ => all_ite (fun _ => .done) (fun _ => .create made ?_ .done))
  refine range .exec execSize _ rfl (range .stack execStackSize _ rfl (range .heap execHeapSize _ rfl
    (range .ld ldSize _ rfl (range .libc libcSize _ rfl (range .dlopen dlopenSize _ rfl
      (range .anon anonSize _ rfl (.set stored ?_)))))))
  rcases forkSpawn_cases spawned (.destroy child (.done none)) with same | ⟨tid, same⟩ <;> rw [same]
  · exact failed
  · exact .done

theorem munmap_all : (munmap m addr length).All P Q := by
  exact all_ite (fun _ => .done) (fun _ => unmapPages_all .done)

theorem dlclose_all {handle : Va} (stored : ∀ slots, Q m { vm.fields with slots }) : (dlclose m vm handle).All P Q := by
  rw [dlclose]
  split
  · exact .done
  · exact unmapPages_all (.set (stored _) .done)

theorem brk_all (heap : ∀ va, Window.heap.covers va → P va) (fields : vm.fields.Ok)
    (stored : execHeapVa ≤ addr → addr ≤ execHeapVa + execHeapSize → Q m { vm.fields with heapBrk := addr }) :
    (brk m vm addr).All P Q := by
  refine all_ite (fun _ => .done) (fun some =>
    all_ite (fun _ => .done) (fun _ => all_ite (fun _ => .done) ?_))
  intro window
  rw [not_or, not_lt, not_lt] at window
  have ok : (Prog.set m { vm.fields with heapBrk := addr } (.done (Option.some addr)) : Prog n).All P Q :=
    .set (stored window.1 window.2) .done
  refine all_ite (fun grows => allocPages_all (fun k below => heap _ ?_) ok .done) (fun _ => unmapPages_all ok)
  have old := fields.brk.resolve_left some
  have start : execHeapVa.toNat = 0x21200000 := rfl
  have stop : (execHeapVa + execHeapSize).toNat = 0x21600000 := rfl
  simp only [le_def, lt_def] at old window grows
  have oldTop := alignUp_toNat (x := vm.fields.heapBrk) (by omega)
  have newTop := alignUp_toNat (x := addr) (by omega)
  have count : pageCount (alignUp addr - alignUp vm.fields.heapBrk) =
      ((alignUp addr).toNat - (alignUp vm.fields.heapBrk).toNat) / 4096 := by
    rw [pageCount, BitVec.toNat_sub_of_le (by rw [le_def]; omega)]
    omega
  refine Window.covers_add (show Window.heap.start.toNat ≤ _ from ?_) ?_ below
  · rw [show Window.heap.start.toNat = 0x21200000 from rfl]
    omega
  · rw [show Window.heap.stop.toNat = 0x21600000 from rfl]
    omega

theorem mmapBase_bounds (fields : vm.fields.Ok) :
    0x22000000 ≤ (mmapBase vm).toNat ∧ (mmapBase vm).toNat ≤ 0x2a000000 ∧ 4096 ∣ (mmapBase vm).toNat := by
  rw [mmapBase]
  split
  · decide
  next used =>
    have next := fields.anon.resolve_left used
    exact next

-- The sums of the window test do not wrap.
def mmapFits (vm : VmMap) (length : Va) (backing : Backing) : Bool :=
  backing == .refused || (mmapBase vm).toNat + length.toNat + 4095 < 2 ^ 64

theorem mmap_window (fields : vm.fields.Ok) (fit : (mmapBase vm).toNat + length.toNat + 4095 < 2 ^ 64)
    (window : ¬anonVa + anonSize < mmapBase vm + alignUp length) :
    (mmapBase vm + alignUp length).toNat = (mmapBase vm).toNat + (length.toNat + 4095) / 4096 * 4096 ∧
      pageCount (alignUp length) = (length.toNat + 4095) / 4096 ∧
      (mmapBase vm).toNat + 4096 * ((length.toNat + 4095) / 4096) ≤ 0x2a000000 := by
  have base := mmapBase_bounds fields
  have stop : (anonVa + anonSize).toNat = 0x2a000000 := rfl
  have aligned := alignUp_toNat (x := length) (by omega)
  have sum : (mmapBase vm + alignUp length).toNat = (mmapBase vm).toNat + (length.toNat + 4095) / 4096 * 4096 := by
    rw [toNat_add]
    omega
  rw [not_lt, le_def] at window
  refine ⟨sum, ?_, by omega⟩
  rw [pageCount]
  omega

theorem mmap_all {backing : Backing} (anon : ∀ va, Window.anon.covers va → P va) (fields : vm.fields.Ok)
    (fit : mmapFits vm length backing = true)
    (stored : ∀ next : Va, anonVa ≤ next → next ≤ anonVa + anonSize → 4096 ∣ next.toNat →
    Q m { vm.fields with anonNext := next }) : (mmap m vm length backing).All P Q := by
  have base := mmapBase_bounds fields
  refine all_ite (fun _ => .done) (fun asked => .set (stored _ base.1 base.2.1 base.2.2) ?_)
  rw [not_or] at asked
  simp only [mmapFits, Bool.or_eq_true, beq_iff_eq, asked.2, false_or, decide_eq_true_eq] at fit
  refine all_ite (fun _ => .done) (fun window => ?_)
  obtain ⟨sum, count, inside⟩ := mmap_window fields fit window
  refine allocPages_all (fun k below => anon _ ?_) (all_ite (fun _ => .done) (fun _ => .set ?_ .done)) .done
  · exact Window.covers_add base.1 inside (count ▸ below)
  · have low : anonVa.toNat = 0x22000000 := rfl
    have high : (anonVa + anonSize).toNat = 0x2a000000 := rfl
    refine stored _ ?_ ?_ ?_
    · rw [le_def]
      omega
    · rw [le_def]
      omega
    · omega

def dlopenLoader (m : Fin n) (s : Fin 4) (img : Image) : Loader n :=
  { m, src := .file, img, base := dlopenBase s, lo := dlopenBase s, hi := dlopenBase s + dlopenSlotSize }

def dlopenFits (m : Fin n) (vm : VmMap) (path : List (BitVec 8)) (file : Option Image) : Bool :=
  vm.fields.heapBrk == 0 ||
    match (List.finRange 4).find? fun s => (vm.fields.slots s).any fun slot => slot.2 = path with
    | some _ => true
    | none =>
      match (List.finRange 4).find? fun s => (vm.fields.slots s).isNone with
      | none => true
      | some s =>
        file.all fun img =>
          if img.size < 64 ∨ !img.isElf ∨ img.ehdr.type ≠ etDyn then true else (dlopenLoader m s img).fits

theorem dlopen_all {path : List (BitVec 8)} {file : Option Image} (window : ∀ va, Window.dlopen.covers va → P va)
    (stored : ∀ slots, Q m { vm.fields with slots }) (fit : dlopenFits m vm path file = true) :
    (dlopen m vm path file).All P Q := by
  rw [dlopenFits, Bool.or_eq_true, beq_iff_eq] at fit
  refine all_ite (fun _ => .done) (fun some => ?_)
  have fit := fit.resolve_left some
  split
  · exact .done
  next unknown =>
    rw [unknown] at fit
    split
    · exact .done
    next s free =>
      rw [free] at fit
      cases file with
      | none => exact .done
      | some img =>
        refine all_ite (fun _ => .done) (fun elf => ?_)
        dsimp only at fit
        rw [Option.all_some, if_neg elf] at fit
        have slot : ∀ s : Fin 4, 4096 ∣ (dlopenBase s).toNat ∧ 4096 ∣ (dlopenBase s + dlopenSlotSize).toNat ∧
            (dlopenBase s + dlopenSlotSize).toNat < 2 ^ 30 ∧ dlopenVa ≤ dlopenBase s ∧
              dlopenBase s + dlopenSlotSize ≤ dlopenVa + dlopenSize := by decide
        obtain ⟨low, high, small, above, below⟩ := slot s
        have bounded : (dlopenLoader m s img).Bounded P :=
          ⟨low, high, small, fun va lo hi => window va ⟨BitVec.le_trans above lo, Nat.lt_of_lt_of_le hi below⟩⟩
        exact load_all bounded fit (fun _ => .set (stored _) .done) .done

end Others

/-- The sums with which a call's window tests are made do not wrap past the test. -/
def callFits (s : Sys n) : Call n → Bool
  | .execve m exec => execFits m exec
  | .mmap m length backing => (s.maps m).all fun vm => mmapFits vm length backing
  | .dlopen m path file => (s.maps m).all fun vm => dlopenFits m vm path file
  | _ => true

def actFits (s : Sys n) : Act n → Bool
  | .begin call => callFits s call
  | .next _ _ _ => true

section Runs

variable {boot : Fin 512 → BitVec 64}

structure VmMap.Confined (boot : Fin 512 → BitVec 64) (vm : VmMap) : Prop where
  kernel : ∀ i, outside i → vm.entries i = .block (boot i)
  fields : vm.fields.Ok

structure Confined (boot : Fin 512 → BitVec 64) (s : Sys n) : Prop where
  maps : ∀ m vm, s.maps m = some vm → vm.Confined boot
  pending : s.pending.All (fun va => ∃ w : Window, w.covers va) (fun _ => Fields.Ok)

theorem program_all {call : Call n} {prog : Prog n} (confined : Confined boot s) (fit : callFits s call = true)
    (laid : program s call = some prog) : prog.All (fun va => ∃ w : Window, w.covers va) (fun _ => Fields.Ok) := by
  have windows : ∀ (w : Window) va, w.covers va → ∃ w : Window, w.covers va := fun w _ inside => ⟨w, inside⟩
  cases call with
  | execve m exec =>
    rw [program] at laid
    split at laid
    · cases laid
      exact execve_all (fun w _ => windows w) noFields_ok ⟨.inr (by decide), .inl rfl⟩ fit
    · cases laid
  | fork parent child pc spawned =>
    rw [program] at laid
    split at laid
    · obtain ⟨vm, live, rfl⟩ := Option.map_eq_some_iff.mp laid
      exact fork_all windows noFields_ok (confined.maps parent vm live).fields
    · cases laid
  | exit m =>
    obtain ⟨vm, live, rfl⟩ := Option.map_eq_some_iff.mp laid
    exact .destroy .done
  | brk m addr =>
    obtain ⟨vm, live, rfl⟩ := Option.map_eq_some_iff.mp laid
    have fields := (confined.maps m vm live).fields
    exact brk_all (windows .heap) fields fun low high => ⟨.inr ⟨low, high⟩, fields.anon⟩
  | mmap m length backing =>
    obtain ⟨vm, live, rfl⟩ := Option.map_eq_some_iff.mp laid
    have fields := (confined.maps m vm live).fields
    rw [callFits, live] at fit
    exact mmap_all (windows .anon) fields fit fun next low high aligned => ⟨fields.brk, .inr ⟨low, high, aligned⟩⟩
  | munmap m addr length =>
    obtain ⟨vm, live, rfl⟩ := Option.map_eq_some_iff.mp laid
    exact munmap_all
  | dlopen m path file =>
    obtain ⟨vm, live, rfl⟩ := Option.map_eq_some_iff.mp laid
    have fields := (confined.maps m vm live).fields
    rw [callFits, live] at fit
    exact dlopen_all (windows .dlopen) (fun _ => ⟨fields.brk, fields.anon⟩) fit
  | dlclose m handle =>
    obtain ⟨vm, live, rfl⟩ := Option.map_eq_some_iff.mp laid
    have fields := (confined.maps m vm live).fields
    exact dlclose_all fun _ => ⟨fields.brk, fields.anon⟩

theorem Confined.step {act : Act n} (confined : Confined boot s) (fit : actFits s act = true)
    (made : step boot s act = some s') : Confined boot s' := by
  cases act with
  | begin call =>
    obtain ⟨prog, _, laid, rfl⟩ := step_begin made
    exact ⟨confined.maps, program_all confined fit laid⟩
  | next a b c =>
    have moved := step_next made
    refine ⟨?_, moved.all confined.pending⟩
    cases moved with
    | refused | full | skipped | read | copied | uncopied => exact confined.maps
    | created =>
      refine update_maps confined.maps rfl ?_
      rintro _ ⟨⟩
      exact ⟨fun i _ => rfl, noFields_ok⟩
    | mapped mapping live placed =>
      refine update_maps confined.maps rfl ?_
      rintro _ ⟨⟩
      have old := confined.maps _ _ live
      obtain ⟨others, fields⟩ := mapUser4k_frame placed
      obtain ⟨w, inside⟩ := (mapping.all confined.pending).1
      refine ⟨fun i out => ?_, fields ▸ old.fields⟩
      have other : i ≠ l2Idx _ := fun same => Window.covers_region inside (same ▸ out)
      rw [others i other, old.kernel i out]
    | unmapped pending live =>
      refine update_maps confined.maps rfl ?_
      rintro _ ⟨⟩
      have old := confined.maps _ _ live
      obtain ⟨blocks, fields⟩ := unmapUser4k_frame _ s.free _
      exact ⟨fun i out => blocks i _ (old.kernel i out), fields ▸ old.fields⟩
    | set pending live =>
      refine update_maps confined.maps rfl ?_
      rintro _ ⟨⟩
      have all := confined.pending
      rw [pending] at all
      cases all with
      | set stored => exact ⟨(confined.maps _ _ live).kernel, stored⟩
    | destroyed =>
      refine update_maps confined.maps rfl ?_
      rintro _ ⟨⟩

end Runs

end Kappara.Vm
