import Kappara.Vm.Anon
import Kappara.Vm.Owner

/-! User mappings and kernel translations over whole runs.

Every call is in one of the phases of the anonymous window, and each operation takes
a phase to a phase. Together with the windows this says where a process can have its
pages: calls whose sums wrap past a window test are what breaks it. -/

set_option autoImplicit false

namespace Kappara.Vm

variable {n : Nat} {s s' : Sys n} {boot : Fin 512 → BitVec 64} {a b c : Bool}

theorem Phase.step_plain (confined : Confined boot s) (clear : AllClear s)
    (same : ∀ m vm, s.maps m = some vm → vm.fields.anonNext = anonOf s.before m)
    (all : s.pending.All Off (fun m f => f.anonNext = anonOf s.before m)) (other : NoMmap s)
    (moved : Moved boot s a b s') : Phase s' := by
  have next := moved.all all
  cases moved with
  | refused | full | skipped | read | copied | uncopied => exact .plain clear same next other
  | created pending =>
    rw [pending] at all
    cases all with
    | create stored =>
      refine .plain (.update (clear.but _) rfl ?_) (update_maps same rfl ?_) next other
      · rintro _ ⟨⟩
        exact bootMap_clear _ _ _
      · rintro _ ⟨⟩
        exact stored
  | mapped mapping live placed =>
    have fields := (mapUser4k_frame placed).2
    obtain ⟨w, off, inside⟩ := (mapping.all all).1
    refine .plain (.update (clear.but _) rfl ?_) (update_maps same rfl ?_) next other
    · rintro _ ⟨⟩
      exact (clear _ _ live).map (confined.maps _ _ live).fields off inside placed
    · rintro _ ⟨⟩
      rw [fields]
      exact same _ _ live
  | unmapped pending live =>
    refine .plain (.update (clear.but _) rfl ?_) (update_maps same rfl ?_) next other
    · rintro _ ⟨⟩
      exact (clear _ _ live).unmap
    · rintro _ ⟨⟩
      rw [(unmapUser4k_frame _ s.free _).2]
      exact same _ _ live
  | set pending live =>
    rw [pending] at all
    cases all with
    | set stored =>
      refine .plain (.update (clear.but _) rfl ?_) (update_maps same rfl ?_) next other
      · rintro _ ⟨⟩
        exact (clear _ _ live).set (stored.trans (same _ _ live).symm)
      · rintro _ ⟨⟩
        exact stored
  | destroyed pending live =>
    refine .plain (.update (clear.but _) rfl ?_) (update_maps same rfl ?_) next other
    · rintro _ ⟨⟩
    · rintro _ ⟨⟩

theorem idle_done {prog : Prog n} (idle : prog.idle = true) : ∃ ret, prog = .done ret := by
  cases prog with
  | done ret => exact ⟨ret, rfl⟩
  | _ => cases idle

theorem Phase.begin {call : Call n} {prog : Prog n} (confined : Confined boot s) (clear : AllClear s)
    (fit : callFits s call = true) (laid : program s call = some prog) :
    Phase { s with pending := prog, call := some call, before := s.maps, events := [] } := by
  have same (m : Fin n) (vm : VmMap) (live : s.maps m = some vm) : vm.fields.anonNext = anonOf s.maps m := by
    rw [anonOf, live]
    rfl
  cases call with
  | execve m exec =>
    obtain ⟨dead, ⟨⟩⟩ := Option.ite_none_right_eq_some.mp laid
    have none : anonOf s.maps m = 0 := by
      rw [anonOf, Option.isNone_iff_eq_none.mp dead]
      rfl
    exact .plain clear same (execve_all (fun w off _ inside => ⟨w, off, inside⟩) none.symm none.symm fit)
      (by rintro _ _ _ ⟨⟩)
  | fork parent child pc spawned =>
    obtain ⟨dead, laid⟩ := Option.ite_none_right_eq_some.mp laid
    obtain ⟨vm, live, rfl⟩ := Option.map_eq_some_iff.mp laid
    rcases fork_forking parent child vm pc spawned with refused | ⟨prog, forks, forking⟩
    · exact .idle refused clear (by rintro _ _ _ ⟨⟩)
    · exact .forked clear live (Option.isNone_iff_eq_none.mp dead) forks forking (by rintro _ _ _ ⟨⟩)
  | exit m =>
    obtain ⟨vm, live, rfl⟩ := Option.map_eq_some_iff.mp laid
    exact .plain clear same (.destroy .done) (by rintro _ _ _ ⟨⟩)
  | brk m addr =>
    obtain ⟨vm, live, rfl⟩ := Option.map_eq_some_iff.mp laid
    refine .plain clear same (brk_all ?_ (confined.maps m vm live).fields fun _ _ => same m vm live)
      (by rintro _ _ _ ⟨⟩)
    exact fun va inside => ⟨.heap, by decide, inside⟩
  | mmap m length backing =>
    obtain ⟨vm, live, rfl⟩ := Option.map_eq_some_iff.mp laid
    rw [callFits, live] at fit
    exact .asked rfl rfl live clear fit rfl
  | munmap m addr length =>
    obtain ⟨vm, live, rfl⟩ := Option.map_eq_some_iff.mp laid
    exact .plain clear same munmap_all (by rintro _ _ _ ⟨⟩)
  | dlopen m path file =>
    obtain ⟨vm, live, rfl⟩ := Option.map_eq_some_iff.mp laid
    rw [callFits, live] at fit
    refine .plain clear same (dlopen_all ?_ (fun _ => same m vm live) fit) (by rintro _ _ _ ⟨⟩)
    exact fun va inside => ⟨.dlopen, by decide, inside⟩
  | dlclose m handle =>
    obtain ⟨vm, live, rfl⟩ := Option.map_eq_some_iff.mp laid
    exact .plain clear same (dlclose_all fun _ => same m vm live) (by rintro _ _ _ ⟨⟩)

theorem Phase.step {act : Act n} (phase : Phase s) (confined : Confined boot s) (fit : actFits s act = true)
    (keeps : keepsUp s act = true) (made : step boot s act = some s') : Phase s' := by
  cases act with
  | begin call =>
    obtain ⟨prog, idle, laid, rfl⟩ := step_begin made
    obtain ⟨ret, done⟩ := idle_done idle
    exact .begin confined (phase.clear done) fit laid
  | next a b c =>
    cases phase with
    | idle pending | mapped _ _ _ _ pending =>
      simp only [Vm.step, pending] at made
      cases made
    | plain clear same all other => exact .step_plain confined clear same all other (step_next made)
    | asked call same live clear fit pending => exact .step_asked confined call same live clear fit pending made
    | filling fill pending => exact .step_filling fill pending keeps made
    | forked clear live dead pending forking other => exact .step_forked made clear live dead pending forking other
    | cloning others apart parent child subset forking other =>
      exact .step_cloning made confined others apart parent child subset forking other
    | dropping others pending other => exact .step_dropping made others pending other

/-- What a run needs: no sum wraps past a window test, and an mmap that has begun to map goes through. -/
def settles (s : Sys n) (act : Act n) : Bool := actFits s act && keepsUp s act

theorem Booted.confined {pages : List Page} (booted : Booted pages s) : Confined boot s ∧ Phase s := by
  obtain ⟨none, _, _, pending, call, _⟩ := booted
  have dead : ∀ m vm, s.maps m ≠ some vm := by simp [none]
  refine ⟨⟨fun m vm live => absurd live (dead m vm), pending ▸ .done⟩, ?_⟩
  exact .idle pending (fun m vm live => absurd live (dead m vm)) fun _ _ _ _ => rfl

/-- Entries of level 2 outside the windows stay the boot table's, and a successful mmap has mapped
exactly addresses of the anonymous window that were free, in every run that settles. -/
theorem user_mappings_confined {pages : List Page}
    (reached : Run.Reach (Vm.step boot) (fun s act => settles s act = true) (Booted pages) s) :
    (∀ m vm, s.maps m = some vm → ∀ i, outside i → vm.entries i = .block (boot i)) ∧
      ∀ m length backing base, s.call = some (.mmap m length backing) → s.pending = .done (some base) →
        ∃ old vm, s.before m = some old ∧ s.maps m = some vm ∧
          ∀ va : Va, base.toNat ≤ va.toNat → va.toNat < base.toNat + length.toNat →
            Window.anon.covers va ∧ (vm.lookup va).isSome = true ∧ old.lookup va = none := by
  have invariant : Confined boot s ∧ Phase s := by
    induction reached with
    | start booted => exact booted.confined
    | next _ settled made ih =>
      rw [settles, Bool.and_eq_true] at settled
      exact ⟨ih.1.step settled.1 made, ih.2.step ih.1 settled.1 settled.2 made⟩
  refine ⟨fun m vm live => (invariant.1.maps m vm live).kernel, ?_⟩
  intro m length backing base call done
  exact invariant.2.granted call done

def mmapRun (length : Va) (count : Nat) : List (Act 1) :=
  startPlain ++ .begin (.mmap 0 length .anonymous) :: List.replicate count (.next true true true)

def mmapReturned (s : Sys 1) (asked : Va) : Bool :=
  match s.call, s.pending with
  | some (.mmap 0 length .anonymous), .done (some base) => length == asked && base == anonVa
  | _, _ => false

theorem mmapReturned_call {s : Sys 1} {asked : Va} (returned : mmapReturned s asked = true) :
    s.call = some (.mmap 0 asked .anonymous) ∧ s.pending = .done (some anonVa) := by
  rw [mmapReturned] at returned
  split at returned
  next call pending =>
    simp only [Bool.and_eq_true, beq_iff_eq] at returned
    rw [call, pending, returned.1, returned.2]
    exact ⟨rfl, rfl⟩
  · cases returned

set_option maxRecDepth 10000 in
theorem user_mappings_confined_one_page : ∃ s : Sys 1, mmapReturned s 1 = true ∧
    ∃ old vm, s.before 0 = some old ∧ s.maps 0 = some vm ∧ (vm.lookup anonVa).isSome = true ∧
      old.lookup anonVa = none := by
  obtain ⟨s, reached, returned⟩ : ∃ s, Run.Reach (Vm.step fun _ => 0) (fun s act => settles s act = true)
    (Booted (List.range 520)) s ∧
      mmapReturned s 1 = true := Run.Reach.found (mmapRun 1 3) (atBoot_booted List.nodup_range) (by decide +kernel)
  obtain ⟨call, done⟩ := mmapReturned_call returned
  obtain ⟨old, vm, before, live, granted⟩ := (user_mappings_confined reached).2 _ _ _ _ call done
  exact ⟨s, returned, old, vm, before, live, (granted anonVa (by decide) (by decide)).2⟩

-- A library whose one segment starts in the last page of slot 3 and ends, wrapped, at address 0.
def wrappingImage : Image :=
  .ofBytes (execHeader 3 1 ++ [(64, 1), (81, 0xf0), (82, 0x07), (105, 0x10), (106, 0xe0), (107, 0xc6), (108, 0xff),
    (109, 0xff), (110, 0xff), (111, 0xff)]) 120 header_small

def dlopenRun : List (Act 1) :=
  let go : Act 1 := .next true true true
  let empty (name : BitVec 8) : List (Act 1) := [.begin (.dlopen 0 [name] (some (plainImage 3))), go, go]
  startPlain ++ empty 1 ++ empty 2 ++ empty 3 ++ [.begin (.dlopen 0 [4] (some wrappingImage)), go, go, go]

def VmMap.tableAt (vm : VmMap) (i : Fin 512) : Bool :=
  match vm.entries i with
  | .table _ _ => true
  | .block _ => false

set_option maxRecDepth 10000 in
/-- A dlopen whose segment wraps replaces a kernel entry, and an mmap of nearly all addresses succeeds
without mapping any. -/
theorem wrapping_lengths_escape :
    (∃ s : Sys 1, Run.Reach (Vm.step fun _ => 0) (fun _ _ => True) (Booted (List.range 530)) s ∧
      ∃ vm i, s.maps 0 = some vm ∧ outside i ∧ vm.entries i ≠ .block 0) ∧
    ∃ s : Sys 1, Run.Reach (Vm.step fun _ => 0) (fun _ _ => True) (Booted (List.range 520)) s ∧
      s.call = some (.mmap 0 (BitVec.allOnes 64) .anonymous) ∧ s.pending = .done (some anonVa) ∧
        ∃ vm, s.maps 0 = some vm ∧ vm.lookup anonVa = none := by
  constructor
  · obtain ⟨s, reached, test⟩ : ∃ s : Sys 1, Run.Reach (Vm.step fun _ => 0) (fun _ _ => True)
      (Booted (List.range 530)) s ∧
        (s.maps 0).any (·.tableAt 457) = true :=
          Run.Reach.found dlopenRun (atBoot_booted List.nodup_range) (by decide +kernel)
    have out : outside 457 := fun w => by cases w <;> decide
    obtain ⟨vm, live, table⟩ := (Option.any_eq_true _ _).mp test
    refine ⟨s, reached, vm, 457, live, out, ?_⟩
    intro block
    rw [VmMap.tableAt, block] at table
    cases table
  · obtain ⟨s, reached, returned, test⟩ :
      ∃ s, Run.Reach (Vm.step fun _ => 0) (fun _ _ => True) (Booted (List.range 520)) s ∧
        mmapReturned s (BitVec.allOnes 64) = true ∧ (s.maps 0).any (fun vm => (vm.lookup anonVa).isNone) = true :=
      Run.Reach.found (mmapRun (BitVec.allOnes 64) 2) (atBoot_booted List.nodup_range) (by decide +kernel)
    obtain ⟨call, done⟩ := mmapReturned_call returned
    obtain ⟨vm, live, none⟩ := (Option.any_eq_true _ _).mp test
    exact ⟨s, reached, call, done, vm, live, Option.isNone_iff_eq_none.mp none⟩

end Kappara.Vm
