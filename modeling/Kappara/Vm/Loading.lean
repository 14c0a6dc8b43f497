import Kappara.Vm.Confined
import Kappara.Vm.Owner

/-! What a successful execve has read and mapped.

Of all paths through the program of an execve only one returns a thread, the one on
which every operation succeeds. So what a successful call has read, copied and mapped
is determined by its images alone. -/

set_option autoImplicit false

namespace Kappara.Vm

variable {n : Nat} {s s' : Sys n} {boot : Fin 512 → BitVec 64} {a b c : Bool}

variable {prog : Prog n} {tid va : Va} {count i : Nat}

section Path

/-- The events of the path without failures, but for copies of the argument block. -/
def Prog.path : Prog n → List Event
  | .done _ => []
  | .create _ ok _ => ok.path
  | .map _ va ok _ => .map va :: ok.path
  | .clone _ _ va ok _ => .map va :: ok.path
  | .unmap _ _ rest => rest.path
  | .read src off len rest => .read src off len :: rest.path
  | .copyin _ _ src off len ok _ => if src = .args then ok.path else .copy src off len :: ok.path
  | .set _ _ rest => rest.path
  | .destroy _ rest => rest.path

def Prog.result : Prog n → Option Va
  | .done ret => ret
  | .create _ ok _ => ok.result
  | .map _ _ ok _ => ok.result
  | .clone _ _ _ ok _ => ok.result
  | .unmap _ _ rest => rest.result
  | .read _ _ _ rest => rest.result
  | .copyin _ _ _ _ _ ok _ => ok.result
  | .set _ _ rest => rest.result
  | .destroy _ rest => rest.result

inductive Prog.Fails : Prog n → Prop where
  | done : Fails (.done none)
  | destroy {m : Fin n} : Fails (.destroy m (.done none))

/-- A failure ends the program, but where words are copied to the stack the result is not looked at. -/
inductive Prog.Straight : Prog n → Prop where
  | done {ret : Option Va} : Straight (.done ret)
  | create {m : Fin n} {ok fail : Prog n} : Straight ok → Fails fail → Straight (.create m ok fail)
  | map {m : Fin n} {va : Va} {ok fail : Prog n} : Straight ok → Fails fail → Straight (.map m va ok fail)
  | read {src : Source} {off : Va} {len : Nat} {rest : Prog n} : Straight rest → Straight (.read src off len rest)
  | copyin {m : Fin n} {va off : Va} {src : Source} {len : Nat} {ok fail : Prog n} : Straight ok → Fails fail →
      Straight (.copyin m va src off len ok fail)
  | word {m : Fin n} {va off : Va} {len : Nat} {next : Prog n} :
      Straight next → Straight (.copyin m va .args off len next next)
  | set {m : Fin n} {fields : Fields} {rest : Prog n} : Straight rest → Straight (.set m fields rest)
  | destroy {m : Fin n} : Straight (.destroy m (.done none))

theorem Prog.Fails.straight (fails : prog.Fails) : prog.Straight := by
  cases fails with
  | done => exact .done
  | destroy => exact .destroy

theorem Prog.Fails.result (fails : prog.Fails) : prog.result = none := by
  cases fails <;> rfl

def Event.fromImage : Event → Bool
  | .copy .args _ _ => false
  | _ => true

/-- The program is on the path without failures, with these events behind it, or will fail. -/
inductive Track (prog : Prog n) (s : Sys n) : Prop where
  | failing : s.pending.Fails → Track prog s
  | on : s.pending.Straight → s.events.filter Event.fromImage ++ s.pending.path = prog.path →
      s.pending.result = prog.result → Track prog s

theorem Track.step (track : Track prog s) (made : step boot s (.next a b c) = some s') : Track prog s' := by
  have moved := step_next made
  cases track with
  | failing fails =>
    cases moved with
    | destroyed pending =>
      rw [pending] at fails
      cases fails
      exact .failing .done
    | full mapping | mapped mapping =>
      cases mapping with
      | map pending | clone pending =>
        rw [pending] at fails
        cases fails
    | refused pending | created pending | skipped pending | unmapped pending | read pending | copied pending
      | uncopied pending | set pending =>
      rw [pending] at fails
      cases fails
  | on straight events result =>
    cases moved with
    | full mapping =>
      cases mapping with
      | map pending =>
        rw [pending] at straight
        cases straight with
        | map _ fails => exact .failing fails
      | clone pending =>
        rw [pending] at straight
        cases straight
    | mapped mapping =>
      cases mapping with
      | map pending =>
        rw [pending] at straight events result
        cases straight with
        | map ok =>
          exact .on ok (by simpa [Sys.log, Sys.put, List.filter_cons, Event.fromImage, Prog.path] using events) result
      | clone pending =>
        rw [pending] at straight
        cases straight
    | refused pending =>
      rw [pending] at straight
      cases straight with
      | create _ fails => exact .failing fails
    | created pending =>
      rw [pending] at straight events result
      cases straight with
      | create ok => exact .on ok events result
    | skipped pending | unmapped pending =>
      rw [pending] at straight
      cases straight
    | read pending =>
      rw [pending] at straight events result
      cases straight with
      | read rest =>
        exact .on rest (by simpa [Sys.log, List.filter_cons, Event.fromImage, Prog.path] using events) result
    | @copied m va off src len ok fail vm pending =>
      rw [pending] at straight events result
      have next : ok.Straight := by cases straight <;> assumption
      refine .on next ?_ result
      cases src <;> simpa [Sys.log, List.filter_cons, Event.fromImage, Prog.path] using events
    | uncopied pending =>
      rw [pending] at straight events result
      cases straight with
      | copyin _ fails => exact .failing fails
      | word next => exact .on next events result
    | set pending =>
      rw [pending] at straight events result
      cases straight with
      | set rest => exact .on rest events result
    | destroyed pending =>
      rw [pending] at straight
      cases straight
      exact .failing .done

/-- A call that has returned a thread has gone the whole path. -/
theorem Track.returned (track : Track prog s) (done : s.pending = .done (some tid)) :
    s.events.filter Event.fromImage = prog.path ∧ prog.result = some tid := by
  cases track with
  | failing fails =>
    rw [done] at fails
    cases fails
  | on _ events result =>
    rw [done] at events result
    exact ⟨by simpa [Prog.path] using events, result.symm⟩

end Path

section Layout

variable {m : Fin n} {ok fail : Prog n}

theorem allocPages_same (fails : fail.Fails) : (ok.Straight → (allocPages m ok fail va count).Straight) ∧
    (allocPages m ok fail va count).result = ok.result := by
  induction count generalizing va with
  | zero => exact ⟨id, rfl⟩
  | succ count ih =>
    refine ⟨fun straight => .map (ih.1 straight) fails, ?_⟩
    rw [allocPages]
    exact ih.2

theorem allocPages_path : (allocPages m ok fail va count).path =
    (List.range count).map (fun k => .map (va + BitVec.ofNat 64 (4096 * k))) ++ ok.path := by
  induction count generalizing va with
  | zero => rfl
  | succ count ih =>
    have shift : ∀ k, va + 4096#64 + BitVec.ofNat 64 (4096 * k) = va + BitVec.ofNat 64 (4096 * (k + 1)) := by
      intro k
      rw [Nat.mul_add_one, Nat.add_comm, BitVec.ofNat_add, BitVec.add_assoc]
    simp [allocPages, Prog.path, ih, List.range_succ_eq_map, shift]

theorem Prog.Straight.ite {c : Prop} {_ : Decidable c} {one two : Prog n} (yes : one.Straight) (no : two.Straight) :
    (if c then one else two).Straight := by
  by_cases here : c
  · rw [if_pos here]
    exact yes
  · rw [if_neg here]
    exact no

theorem segments_straight {l : Loader n} {left : Nat} (straight : ok.Straight) (fails : fail.Fails) :
    (segments l ok fail i left).Straight := by
  induction left generalizing i with
  | zero => exact straight
  | succ left ih =>
    refine .read (.ite (.ite fails.straight ?_) ih)
    exact (allocPages_same fails).1 (.ite ih (.copyin ih fails))

theorem pushWords_same {sp : Va} {words : List Nat} : (ok.Straight → (pushWords m ok sp words).Straight) ∧
    (pushWords m ok sp words).path = ok.path ∧ (pushWords m ok sp words).result = ok.result := by
  induction words generalizing sp with
  | nil => exact ⟨id, rfl, rfl⟩
  | cons len words ih => exact ⟨fun straight => .word (ih.1 straight), ih.2⟩

theorem execArgs_same {args : List Nat} (fails : fail.Fails) : (ok.Straight → (execArgs m args ok fail).Straight) ∧
    (execArgs m args ok fail).path = ok.path ∧ (execArgs m args ok fail).result = ok.result := by
  rw [execArgs]
  generalize execStackTop = sp
  generalize (stackWords (args.take 32).length) = words
  induction (args.take 32).reverse generalizing sp with
  | nil => exact pushWords_same
  | cons len rest ih => exact ⟨fun straight => .copyin ((ih _).1 straight) fails, (ih _).2⟩

end Layout

section Segments

variable {l : Loader n} {ok fail : Prog n}

/-- What loading a segment reads, maps and copies. -/
def segEvents (l : Loader n) (i : Nat) : List Event :=
  let ph := l.img.phdr i
  let va := ph.vaddr + l.base
  .read l.src (l.img.phdrOff i) (if ph.load then 48 else 4) ::
    if ph.load then
      (List.range (segPages va ph.memsz)).map (fun k => .map (alignDown va + BitVec.ofNat 64 (4096 * k))) ++
        if ph.filesz = 0 then [] else [.copy l.src ph.offset ph.filesz.toNat]
    else []

/-- The window test lets the segment through. -/
def Loader.admits (l : Loader n) (i : Nat) : Prop :=
  let ph := l.img.phdr i
  ph.load = true → l.lo ≤ ph.vaddr + l.base ∧ ph.vaddr + l.base + ph.memsz ≤ l.hi

theorem segments_path {left : Nat} (image : l.src ≠ .args) (fails : fail.Fails)
    (returns : (segments l ok fail i left).result = some tid) :
    (∀ j, i ≤ j → j < i + left → l.admits j) ∧ ok.result = some tid ∧
      (segments l ok fail i left).path = (List.range' i left).flatMap (segEvents l) ++ ok.path := by
  induction left generalizing i with
  | zero => exact ⟨fun j low high => by omega, returns, rfl⟩
  | succ left ih =>
    have first : l.admits i ∧ (segments l ok fail (i + 1) left).result = some tid ∧
        (segments l ok fail i (left + 1)).path = segEvents l i ++ (segments l ok fail (i + 1) left).path := by
      simp only [segments, segment, Prog.result] at returns
      simp only [segments, segment, Prog.path, segEvents, Loader.admits]
      generalize segments l ok fail (i + 1) left = next at *
      generalize l.img.phdr i = ph at *
      by_cases loads : ph.load = true
      · simp only [loads, if_true, forall_const] at returns ⊢
        by_cases window : ph.vaddr + l.base < l.lo ∨ l.hi < ph.vaddr + l.base + ph.memsz
        · rw [if_pos window, fails.result] at returns
          cases returns
        rw [if_neg window, (allocPages_same fails).2] at returns
        rw [if_neg window, allocPages_path]
        rw [not_or, BitVec.not_lt, BitVec.not_lt] at window
        refine ⟨window, ?_⟩
        by_cases empty : ph.filesz = 0
        · rw [if_pos empty] at returns
          exact ⟨returns, by simp [empty]⟩
        · rw [if_neg empty] at returns
          refine ⟨returns, ?_⟩
          rw [if_neg empty, if_neg empty, Prog.path, if_neg image]
          simp
      · rw [if_neg loads] at returns
        exact ⟨fun load => absurd load loads, returns, by simp [loads]⟩
    obtain ⟨admitted, returned, path⟩ := first
    obtain ⟨rest, done, later⟩ := ih returned
    refine ⟨fun j low high => ?_, done, ?_⟩
    · by_cases same : j = i
      · exact same ▸ admitted
      · exact rest j (by omega) (by omega)
    · rw [path, later, List.range'_succ, List.flatMap_cons, List.append_assoc]

theorem load_path (image : l.src ≠ .args) (fails : fail.Fails) (returns : (load l ok fail).result = some tid) :
    (∀ i < l.img.ehdr.phnum, l.admits i) ∧ ok.result = some tid ∧
      ∀ e, e ∈ (load l ok fail).path ↔ (∃ i < l.img.ehdr.phnum, e ∈ segEvents l i) ∨ e ∈ ok.path := by
  obtain ⟨admits, done, path⟩ := segments_path image fails returns
  refine ⟨fun i below => admits i (Nat.zero_le i) (by omega), done, fun e => ?_⟩
  rw [load, path]
  simp

theorem load_straight (straight : ok.Straight) (fails : fail.Fails) : (load l ok fail).Straight :=
  segments_straight straight fails

end Segments

section Execve

variable {m : Fin n} {exec : Exec}

theorem execInterp_straight {ok fail : Prog n} (straight : ok.Straight) (fails : fail.Fails) :
    (execInterp m exec ok fail).Straight :=
  .ite fails.straight (load_straight (.ite fails.straight (load_straight straight fails)) fails)

theorem execve_straight (m : Fin n) (exec : Exec) : (execve m exec).Straight := by
  rw [execve]
  cases exec.file with
  | none => exact .done
  | some file =>
    have fails : (Prog.destroy m (.done none) : Prog n).Fails := .destroy
    have stack {run : Prog n} (runs : run.Straight) : (allocPages m (.set m { noFields with heapBrk := execHeapVa }
        (execArgs m exec.args run (.destroy m (.done none)))) (.destroy m (.done none)) execStackVa
        (pageCount execStackSize)).Straight :=
      (allocPages_same fails).1 (.set ((execArgs_same fails).1 runs))
    have straight : (execSpawn exec.spawned (.destroy m (.done none))).Straight := by
      rcases execSpawn_cases exec.spawned (.destroy m (.done none)) with same | ⟨tid, same⟩ <;> rw [same]
      · exact .destroy
      · exact .done
    exact .ite .done (.create (load_straight (.ite (execInterp_straight (stack straight) fails) (stack straight))
      fails) .done)

theorem execInterp_path {ok fail : Prog n} (fails : fail.Fails)
    (returns : (execInterp m exec ok fail).result = some tid) :
    (∀ i < exec.ld.ehdr.phnum, (ldLoader m exec.ld).admits i) ∧
    (∀ i < exec.libc.ehdr.phnum, (libcLoader m exec.libc).admits i) ∧ ok.result = some tid ∧
      ∀ e, e ∈ (execInterp m exec ok fail).path ↔ (∃ i < exec.ld.ehdr.phnum, e ∈ segEvents (ldLoader m exec.ld) i) ∨
        (∃ i < exec.libc.ehdr.phnum, e ∈ segEvents (libcLoader m exec.libc) i) ∨ e ∈ ok.path := by
  rw [execInterp] at returns ⊢
  by_cases ld : exec.ld.size < 64 ∨ !exec.ld.isElf ∨ exec.ld.ehdr.type ≠ etExec
  · rw [if_pos ld, fails.result] at returns
    cases returns
  rw [if_neg ld] at returns ⊢
  obtain ⟨ldAdmits, next, ldPath⟩ := load_path (l := ldLoader m exec.ld) (by simp [ldLoader]) fails returns
  by_cases libc : exec.ld.ehdr.entry = 0 ∨ exec.libc.ehdr.type ≠ etDyn ∨ exec.libc.ehdr.machine ≠ 0xb7
  · rw [if_pos libc, fails.result] at next
    cases next
  rw [if_neg libc] at next ldPath ⊢
  obtain ⟨libcAdmits, done, libcPath⟩ := load_path (l := libcLoader m exec.libc) (by simp [libcLoader]) fails next
  exact ⟨ldAdmits, libcAdmits, done, fun e => (ldPath e).trans (or_congr_right (libcPath e))⟩

-- What the stack is given.
def stackEvents : List Event :=
  (List.range (pageCount execStackSize)).map fun k => .map (execStackVa + BitVec.ofNat 64 (4096 * k))

theorem execve_path (returns : (execve m exec).result = some tid) :
    ∃ file, exec.file = some file ∧ (∀ i < file.ehdr.phnum, (execLoader m file).admits i) ∧
      (file.ehdr.type = etDyn → (∀ i < exec.ld.ehdr.phnum, (ldLoader m exec.ld).admits i) ∧
        ∀ i < exec.libc.ehdr.phnum, (libcLoader m exec.libc).admits i) ∧
      ∀ e, e ∈ (execve m exec).path ↔ (∃ i < file.ehdr.phnum, e ∈ segEvents (execLoader m file) i) ∨
        (file.ehdr.type = etDyn ∧ ((∃ i < exec.ld.ehdr.phnum, e ∈ segEvents (ldLoader m exec.ld) i) ∨
          ∃ i < exec.libc.ehdr.phnum, e ∈ segEvents (libcLoader m exec.libc) i)) ∨ e ∈ stackEvents := by
  rw [execve] at returns ⊢
  cases opened : exec.file with
  | none =>
    rw [opened] at returns
    cases returns
  | some file =>
    rw [opened] at returns
    dsimp only at returns ⊢
    have fails : (Prog.destroy m (.done none) : Prog n).Fails := .destroy
    by_cases elf : file.size < 64 ∨ !file.isElf ∨ (file.ehdr.type ≠ etExec ∧ file.ehdr.type ≠ etDyn) ∨
        file.ehdr.phoff = 0 ∨ file.ehdr.phnum = 0
    · rw [if_pos elf] at returns
      cases returns
    rw [if_neg elf] at returns ⊢
    generalize args : execArgs m exec.args _ _ = pushed at returns ⊢
    have empty : pushed.path = [] := by
      rw [← args, (execArgs_same fails).2.1]
      rcases execSpawn_cases exec.spawned (.destroy m (.done none)) with same | ⟨tid, same⟩ <;> rw [same] <;> rfl
    generalize laid : allocPages m (.set m _ pushed) _ execStackVa (pageCount execStackSize) = stack at returns ⊢
    have pages : stack.path = stackEvents := by
      rw [← laid, allocPages_path, Prog.path, empty, List.append_nil, stackEvents]
    obtain ⟨admits, next, path⟩ := load_path (l := execLoader m file) (by simp [execLoader]) fails returns
    by_cases dynamic : file.ehdr.type = etDyn
    · rw [if_pos dynamic] at next
      obtain ⟨ld, libc, _, interp⟩ := execInterp_path fails next
      refine ⟨file, rfl, admits, fun _ => ⟨ld, libc⟩, fun e => (path e).trans (or_congr_right ?_)⟩
      rw [if_pos dynamic, interp, pages]
      simp [dynamic, or_assoc]
    · refine ⟨file, rfl, admits, fun dyn => absurd dyn dynamic, fun e => (path e).trans (or_congr_right ?_)⟩
      rw [if_neg dynamic, pages]
      simp [dynamic]

end Execve

section Safety

variable {m : Fin n} {exec : Exec} {l : Loader n}

def Exec.image (exec : Exec) : Source → Option Image
  | .file => exec.file
  | .ld => some exec.ld
  | .libc => some exec.libc
  | .args => none

-- The windows execve maps pages in.
def loads (va : Va) : Prop := ∃ w : Window, (w = .exec ∨ w = .stack ∨ w = .ld ∨ w = .libc) ∧ w.covers va

/-- Bytes come from inside the image they are read from, and pages go into the windows of execve. -/
def Event.safe (exec : Exec) : Event → Prop
  | .read src off len => ∀ img, exec.image src = some img → img.holds off len
  | .map va => loads va
  | .copy src off len => ∀ img, exec.image src = some img → img.holds off len

def Safe (exec : Exec) (events : List Event) : Prop := ∀ e ∈ events, e.safe exec

-- The header and the bytes of a segment end in front of the end of the file, and its pages fit.
def Image.segmentInside (img : Image) (base : Va) (i : Nat) : Bool :=
  let ph := img.phdr i
  (img.phdrOff i).toNat + (if ph.load then 48 else 4) ≤ img.size &&
    (!ph.load ||
      (ph.filesz == 0 || ph.offset.toNat + ph.filesz.toNat ≤ img.size) && fits (ph.vaddr + base) ph.memsz)

def Image.inside (img : Image) (base : Va) : Bool := (List.range img.ehdr.phnum).all (img.segmentInside base)

def Exec.inside (exec : Exec) : Bool :=
  exec.file.all fun file =>
    if file.ehdr.type = etDyn then file.inside execVa && (exec.ld.inside 0 && exec.libc.inside libcVa)
    else file.inside 0

section

variable (here : exec.image l.src = some l.img) (bounded : l.Bounded loads)
include here bounded

theorem segEvents_safe (admits : l.admits i) : Safe exec (segEvents l i) ↔ l.img.segmentInside l.base i = true := by
  have header : ∀ len, 0 < len → len < 2 ^ 64 → ((Event.read l.src (l.img.phdrOff i) len).safe exec ↔
      (l.img.phdrOff i).toNat + len ≤ l.img.size) := by
    intro len some small
    simp only [Event.safe, here, Option.some.injEq, forall_eq']
    rw [Image.holds_iff _ _ _ (by omega)]
    omega
  have bytes : ∀ off size : Va, size ≠ 0 →
      ((Event.copy l.src off size.toNat).safe exec ↔ off.toNat + size.toNat ≤ l.img.size) := by
    intro off size some
    have none : size.toNat ≠ 0 := fun zero => some (BitVec.eq_of_toNat_eq zero)
    simp only [Event.safe, here, Option.some.injEq, forall_eq']
    rw [Image.holds_iff _ _ _ (by omega)]
    omega
  simp only [Loader.admits] at admits
  simp only [Safe, segEvents, Image.segmentInside, Bool.and_eq_true, decide_eq_true_eq, Bool.or_eq_true,
    Bool.not_eq_true', beq_iff_eq]
  generalize l.img.phdr i = ph at *
  by_cases load : ph.load = true
  · obtain ⟨low, high⟩ := admits load
    have pages : (∀ k < segPages (ph.vaddr + l.base) ph.memsz,
        (Event.map (alignDown (ph.vaddr + l.base) + BitVec.ofNat 64 (4096 * k))).safe exec) ↔
          fits (ph.vaddr + l.base) ph.memsz = true := by
      constructor
      · intro safe
        by_contra wraps
        obtain ⟨k, below, above⟩ := segPages_above bounded.small high (Bool.not_eq_true _ ▸ wraps)
        obtain ⟨w, _, inside⟩ := safe k below
        exact absurd (Window.covers_lt inside) (Nat.not_lt.mpr above)
      · intro fit k below
        exact segment_pages bounded low high fit below
    simp only [load, if_true, Bool.true_eq_false, List.forall_mem_cons, List.forall_mem_append, List.forall_mem_map,
      List.mem_range, pages, header 48 (by decide) (by decide)]
    by_cases empty : ph.filesz = 0
    · simp [empty]
    · simp only [empty, if_false, List.forall_mem_singleton, bytes _ _ empty, false_or]
      exact and_congr_right fun _ => and_comm
  · simp [load, header 4 (by decide) (by decide)]

theorem load_safe (admits : ∀ i < l.img.ehdr.phnum, l.admits i) :
    (∀ i < l.img.ehdr.phnum, Safe exec (segEvents l i)) ↔ l.img.inside l.base = true := by
  simp only [Image.inside, List.all_eq_true, List.mem_range]
  exact forall₂_congr fun i below => segEvents_safe here bounded (admits i below)

end

theorem stackEvents_safe : Safe exec stackEvents := by
  intro e member
  simp only [stackEvents, List.mem_map, List.mem_range] at member
  obtain ⟨k, below, rfl⟩ := member
  have low : Window.stack.start.toNat ≤ execStackVa.toNat := by decide
  have high : execStackVa.toNat + 4096 * pageCount execStackSize ≤ Window.stack.stop.toNat := by decide
  exact ⟨.stack, by simp, Window.covers_add low high below⟩

/-- The whole path is safe for just the images that are in order. -/
theorem execve_safe (returns : (execve m exec).result = some tid) :
    Safe exec (execve m exec).path ↔ exec.inside = true := by
  obtain ⟨file, opened, admits, interp, path⟩ := execve_path returns
  have here : exec.image (execLoader m file).src = some (execLoader m file).img := opened
  have ldHere : exec.image (ldLoader m exec.ld).src = some (ldLoader m exec.ld).img := rfl
  have libcHere : exec.image (libcLoader m exec.libc).src = some (libcLoader m exec.libc).img := rfl
  have fileSafe : (∀ i < file.ehdr.phnum, Safe exec (segEvents (execLoader m file) i)) ↔
      file.inside (execLoader m file).base = true :=
    load_safe here (Window.bounded rfl rfl fun va inside => ⟨.exec, by simp, inside⟩) admits
  have split : Safe exec (execve m exec).path ↔
      (∀ i < file.ehdr.phnum, Safe exec (segEvents (execLoader m file) i)) ∧
        (file.ehdr.type = etDyn → (∀ i < exec.ld.ehdr.phnum, Safe exec (segEvents (ldLoader m exec.ld) i)) ∧
          ∀ i < exec.libc.ehdr.phnum, Safe exec (segEvents (libcLoader m exec.libc) i)) := by
    constructor
    · intro safe
      refine ⟨fun i below e member => safe e ((path e).mpr (.inl ⟨i, below, member⟩)), fun dynamic => ⟨?_, ?_⟩⟩
      · exact fun i below e member => safe e ((path e).mpr (.inr (.inl ⟨dynamic, .inl ⟨i, below, member⟩⟩)))
      · exact fun i below e member => safe e ((path e).mpr (.inr (.inl ⟨dynamic, .inr ⟨i, below, member⟩⟩)))
    · rintro ⟨first, rest⟩ e member
      rcases (path e).mp member with ⟨i, below, member⟩ | ⟨dynamic, ⟨i, below, member⟩ | ⟨i, below, member⟩⟩ | member
      · exact first i below e member
      · exact (rest dynamic).1 i below e member
      · exact (rest dynamic).2 i below e member
      · exact stackEvents_safe e member
  rw [split, fileSafe, Exec.inside, opened, Option.all_some]
  by_cases dynamic : file.ehdr.type = etDyn
  · have ldSafe := load_safe ldHere (Window.bounded rfl rfl fun va inside => ⟨.ld, by simp, inside⟩) (interp dynamic).1
    have libcSafe := load_safe libcHere (Window.bounded rfl rfl fun va inside => ⟨.libc, by simp, inside⟩)
      (interp dynamic).2
    have base : (execLoader m file).base = execVa := if_pos dynamic
    rw [if_pos dynamic, base]
    simp only [dynamic, forall_const, Bool.and_eq_true]
    exact and_congr_right fun _ => and_congr ldSafe libcSafe
  · have base : (execLoader m file).base = 0 := if_neg dynamic
    rw [if_neg dynamic, base]
    simp only [dynamic, false_implies, and_true]

end Safety

/-- In an execve the pending program is on its path or will fail. -/
def Tracked (s : Sys n) : Prop := ∀ m exec, s.call = some (.execve m exec) → Track (execve m exec) s

theorem Tracked.step {act : Act n} (tracked : Tracked s) (made : step boot s act = some s') : Tracked s' := by
  cases act with
  | begin call =>
    obtain ⟨prog, _, laid, rfl⟩ := step_begin made
    rintro m exec ⟨⟩
    rw [program] at laid
    split at laid
    · cases laid
      exact .on (execve_straight m exec) rfl rfl
    · cases laid
  | next a b c =>
    intro m exec call
    have same : s'.call = s.call := by cases step_next made <;> rfl
    exact (tracked m exec (same ▸ call)).step made

/-- A successful execve reads only inside its images and maps only in its windows if and only if the
headers and segments of the images are in order. -/
theorem execve_safe_iff {pages : List Page} {m : Fin n} {exec : Exec} {tid : Va}
    (reached : Run.Reach (step boot) (fun _ _ => True) (Booted pages) s) (call : s.call = some (.execve m exec))
    (done : s.pending = .done (some tid)) : Safe exec s.events ↔ exec.inside = true := by
  have tracked : Tracked s := by
    clear call done
    induction reached with
    | start booted =>
      intro m exec call
      rw [booted.2.2.2.2.1] at call
      cases call
    | next _ _ made ih => exact ih.step made
  obtain ⟨events, returns⟩ := (tracked m exec call).returned done
  rw [← execve_safe returns, ← events]
  constructor
  · intro safe e member
    exact safe e (List.mem_of_mem_filter member)
  · intro safe e member
    cases image : e.fromImage with
    | true => exact safe e (List.mem_filter.mpr ⟨member, image⟩)
    | false =>
      cases e with
      | copy src off len =>
        cases src with
        | args => rintro _ ⟨⟩
        | _ => cases image
      | _ => cases image

-- The execve has returned a thread, and its input passes a test.
def execReturned (test : Exec → Bool) (s : Sys 1) : Bool :=
  match s.call, s.pending with
  | some (.execve _ exec), .done (some _) => test exec
  | _, _ => false

theorem execReturned_call {test : Exec → Bool} {s : Sys 1} (returned : execReturned test s = true) :
    ∃ m exec tid, s.call = some (.execve m exec) ∧ s.pending = .done (some tid) ∧ test exec = true := by
  rw [execReturned] at returned
  split at returned
  next m exec tid call pending => exact ⟨m, exec, tid, call, pending, returned⟩
  · cases returned

-- The process of a program with two segments, up to the return.
def startTwo : List (Act 1) :=
  .begin (.execve 0 ⟨some (twoSegments 0x10), twoSegments 0x10, twoSegments 0x10, [], ⟨some 7, true⟩⟩) ::
    List.replicate 526 (.next true true true)

set_option maxRecDepth 10000 in
theorem execve_safe_iff_segments : ∃ (s : Sys 1) (m : Fin 1) (exec : Exec) (tid : Va), s.call = some (.execve m exec) ∧
    s.pending = .done (some tid) ∧ Safe exec s.events := by
  obtain ⟨s, reached, returned⟩ : ∃ s, Run.Reach (step fun _ => 0) (fun _ _ => True) (Booted (List.range 530)) s ∧
      execReturned Exec.inside s = true := Run.Reach.found startTwo (atBoot_booted List.nodup_range) (by decide +kernel)
  obtain ⟨m, exec, tid, call, done, inside⟩ := execReturned_call returned
  exact ⟨s, m, exec, tid, call, done, (execve_safe_iff reached call done).mpr inside⟩

-- One segment of one byte, to be read 4096 bytes into a file of 120.
def overreadImage : Image := .ofBytes (execHeader 2 1 ++ [(64, 1), (73, 0x10), (83, 0x20), (96, 1),
    (104, 1)]) 120 header_small

def startOverread : List (Act 1) :=
  .begin (.execve 0 ⟨some overreadImage, overreadImage, overreadImage, [], ⟨some 7, true⟩⟩) ::
    List.replicate 525 (.next true true true)

def Event.isOverread : Event → Bool
  | .copy .file off len => off == 0x1000 && len == 1
  | _ => false

set_option maxRecDepth 10000 in
/-- A file of 120 bytes is run with a byte of kernel memory from behind its end. -/
theorem execve_reads_outside : ∃ (s : Sys 1) (m : Fin 1) (exec : Exec) (tid : Va),
    Run.Reach (step fun _ => 0) (fun _ _ => True) (Booted (List.range 530)) s ∧ s.call = some (.execve m exec) ∧
      s.pending = .done (some tid) ∧ ¬Safe exec s.events := by
  obtain ⟨s, reached, returned, e, member, copied⟩ :
    ∃ s, Run.Reach (step fun _ => 0) (fun _ _ => True) (Booted (List.range 530)) s ∧
      execReturned (fun exec => exec.file.any (·.size == 120)) s = true ∧ ∃ e ∈ s.events, e.isOverread = true :=
    Run.Reach.found startOverread (atBoot_booted List.nodup_range) (by decide +kernel)
  obtain ⟨m, exec, tid, call, done, opened⟩ := execReturned_call returned
  obtain ⟨file, opened, size⟩ := (Option.any_eq_true _ _).mp opened
  refine ⟨s, m, exec, tid, reached, call, done, fun safe => ?_⟩
  have held := safe e member
  simp only [Event.isOverread] at copied
  split at copied
  next off len =>
    rw [Bool.and_eq_true, beq_iff_eq, beq_iff_eq] at copied
    rw [copied.1, copied.2] at held
    have first := held file opened 0 (by decide)
    rw [beq_iff_eq.mp size] at first
    exact absurd first (by decide)
  · cases copied

end Kappara.Vm
