import Kappara.Vm.Calls

/-! What one page operation of a call can do.

Each operation is inverted once: what it takes from the free list, which entries of
which map it touches, and where the call goes on. The invariants of the address
spaces are read off from this. -/

set_option autoImplicit false

namespace Kappara.Vm

open Function (update)

variable {n : Nat} {s s' : Sys n}

theorem pmmAlloc_cases (grant : Bool) (free : List Page) : pmmAlloc grant free = (none, free) ∨
      ∃ p rest, grant = true ∧ free = p :: rest ∧ pmmAlloc grant free = (some p, rest) := by
  cases free with
  | nil => exact .inl rfl
  | cons p rest =>
    cases grant with
    | false => exact .inl rfl
    | true => exact .inr ⟨p, rest, rfl, rfl, rfl⟩

section Pages

variable {vm vm' : VmMap} {free free' : List Page} {va : Va} {a b : Bool}

theorem lookup_page (vm : VmMap) (va : Va) : vm.page (.user (l2Idx va) (l3Idx va)) = vm.lookup va := by
  simp [VmMap.page, VmMap.lookup]

theorem setTable_page (vm : VmMap) (va : Va) (l3 : Page) (pages : Fin 512 → Option Page) (spot : Spot) :
    (vm.setTable va l3 pages).page spot =
      match spot with
      | .l3 i => if i = l2Idx va then some l3 else vm.page (.l3 i)
      | .user i j => if i = l2Idx va then pages j else vm.page (.user i j)
      | other => vm.page other := by
  cases spot with
  | l3 i | user i j => by_cases same : i = l2Idx va <;> simp [VmMap.page, VmMap.setTable, same]
  | l0 | l1 | l2 => rfl

theorem setTable_update {l3 : Page} {pages : Fin 512 → Option Page} (region : vm.entries (l2Idx va) = .table l3 pages)
    (value : Option Page) : (vm.setTable va l3 (update pages (l3Idx va) value)).page =
      update vm.page (.user (l2Idx va) (l3Idx va)) value := by
  funext spot
  rw [setTable_page]
  cases spot with
  | l3 i => by_cases same : i = l2Idx va <;> simp [VmMap.page, same, region]
  | user i j =>
    by_cases same : i = l2Idx va
    · by_cases slot : j = l3Idx va <;> simp [VmMap.page, same, slot, region]
    · simp [same]
  | l0 | l1 | l2 => simp

theorem setTable_fresh {desc : BitVec 64} (region : vm.entries (l2Idx va) = .block desc) (l3 page : Page) :
    (vm.setTable va l3 (update (fun _ => none) (l3Idx va) (some page))).page =
      update (update vm.page (.user (l2Idx va) (l3Idx va)) (some page)) (.l3 (l2Idx va)) (some l3) := by
  funext spot
  rw [setTable_page]
  cases spot with
  | l3 i => by_cases same : i = l2Idx va <;> simp [same]
  | user i j =>
    by_cases same : i = l2Idx va
    · by_cases slot : j = l3Idx va <;> simp [VmMap.page, same, slot, region]
    · simp [same]
  | l0 | l1 | l2 => simp

inductive Mapped (vm : VmMap) (free : List Page) (va : Va) (vm' : VmMap) (free' : List Page) : Prop where
  | table {p : Page} : free = p :: free' →
      vm'.page = update vm.page (.user (l2Idx va) (l3Idx va)) (some p) → Mapped vm free va vm' free'
  | fresh {p l3 : Page} : free = p :: l3 :: free' → vm.page (.l3 (l2Idx va)) = none →
      vm'.page = update (update vm.page (.user (l2Idx va) (l3Idx va)) (some p)) (.l3 (l2Idx va)) (some l3) →
      Mapped vm free va vm' free'

theorem mapUser4k_some (made : mapUser4k vm free va a b = (some vm', free')) :
    a = true ∧ Mapped vm free va vm' free' := by
  rw [mapUser4k] at made
  rcases pmmAlloc_cases a free with refused | ⟨p, rest, granted, here, taken⟩
  · simp [refused] at made
  simp only [taken] at made
  split at made
  next l3 pages region =>
    cases made
    exact ⟨granted, .table here (setTable_update region (some p))⟩
  next desc region =>
    rcases pmmAlloc_cases b rest with refused | ⟨l3, rest', _, here', taken'⟩
    · simp [refused] at made
    simp only [taken'] at made
    cases made
    have none : vm.page (.l3 (l2Idx va)) = none := by simp [VmMap.page, region]
    exact ⟨granted, .fresh (by rw [here, here']) none (setTable_fresh region l3 p)⟩

theorem mapUser4k_none (made : mapUser4k vm free va a b = (none, free')) : free' = free := by
  rw [mapUser4k] at made
  rcases pmmAlloc_cases a free with refused | ⟨p, rest, _, here, taken⟩
  · simp only [refused, Prod.mk.injEq, true_and] at made
    exact made.symm
  simp only [taken] at made
  split at made
  · cases made
  · rcases pmmAlloc_cases b rest with refused | ⟨l3, rest', _, _, taken'⟩
    · simp only [refused, Prod.mk.injEq, true_and] at made
      rw [← made, here]
    · simp [taken'] at made

theorem mapUser4k_frame (made : mapUser4k vm free va a b = (some vm', free')) :
    (∀ i, i ≠ l2Idx va → vm'.entries i = vm.entries i) ∧ vm'.fields = vm.fields := by
  have table : ∀ l3 pages, (∀ i, i ≠ l2Idx va → (vm.setTable va l3 pages).entries i = vm.entries i) ∧
      (vm.setTable va l3 pages).fields = vm.fields := by
    intro l3 pages
    refine ⟨fun i other => ?_, rfl⟩
    simp [VmMap.setTable, other]
  rw [mapUser4k] at made
  split at made
  · cases made
  · split at made
    · cases made
      exact table _ _
    · split at made
      · cases made
      · cases made
        exact table _ _

theorem unmapUser4k_frame (vm : VmMap) (free : List Page) (va : Va) :
    (∀ i desc, vm.entries i = .block desc → (unmapUser4k vm free va).1.entries i = .block desc) ∧
      (unmapUser4k vm free va).1.fields = vm.fields := by
  rw [unmapUser4k]
  split
  · exact ⟨fun _ _ block => block, rfl⟩
  next region =>
    split
    · exact ⟨fun _ _ block => block, rfl⟩
    · refine ⟨fun i desc block => ?_, rfl⟩
      have other : i ≠ l2Idx va := by
        rintro rfl
        rw [region] at block
        cases block
      simp [VmMap.setTable, other, block]

theorem unmapUser4k_cases (vm : VmMap) (free : List Page) (va : Va) :
    (vm.lookup va = none ∧ unmapUser4k vm free va = (vm, free)) ∨ ∃ p, vm.lookup va = some p ∧
    (unmapUser4k vm free va).2 = p :: free ∧
      (unmapUser4k vm free va).1.page = update vm.page (.user (l2Idx va) (l3Idx va)) none := by
  cases region : vm.entries (l2Idx va) with
  | block desc => simp [unmapUser4k, VmMap.lookup, region]
  | table l3 pages =>
    cases entry : pages (l3Idx va) with
    | none => simp [unmapUser4k, VmMap.lookup, region, entry]
    | some p =>
      refine .inr ⟨p, by simp [VmMap.lookup, region, entry], by simp [unmapUser4k, region, entry], ?_⟩
      simp only [unmapUser4k, region, entry]
      exact setTable_update region none

theorem pmmFree_pmmAlloc (grant : Bool) (free : List Page) :
    pmmFree (pmmAlloc grant free).1 (pmmAlloc grant free).2 = free := by
  rcases pmmAlloc_cases grant free with refused | ⟨p, rest, _, here, taken⟩
  · rw [refused, pmmFree]
  · rw [taken, pmmFree, here]

theorem pmmFree_perm (p : Option Page) (same : free.Perm free') : (pmmFree p free).Perm (pmmFree p free') := by
  cases p with
  | none => exact same
  | some p => exact same.cons p

theorem pmmFree_swap (p q : Option Page) (free : List Page) :
    (pmmFree p (pmmFree q free)).Perm (pmmFree q (pmmFree p free)) := by
  cases p with
  | none => exact .refl _
  | some p =>
    cases q with
    | none => exact .refl _
    | some q => exact .swap q p free

def bootMap (boot : Fin 512 → BitVec 64) (l0 l1 l2 : Page) : VmMap :=
  { l0, l1, l2, entries := fun i => .block (boot i), fields := noFields }

theorem vmMapCreate_cases (boot : Fin 512 → BitVec 64) (free : List Page) (a b c : Bool) :
    (∃ free', vmMapCreate boot free a b c = (none, free') ∧ free'.Perm free) ∨
      ∃ l0 l1 l2 rest, free = l0 :: l1 :: l2 :: rest ∧
        vmMapCreate boot free a b c = (some (bootMap boot l0 l1 l2), rest) := by
  have first := pmmFree_pmmAlloc a free
  have second := pmmFree_pmmAlloc b (pmmAlloc a free).2
  have third := pmmFree_pmmAlloc c (pmmAlloc b (pmmAlloc a free).2).2
  rw [vmMapCreate]
  split
  next l0 l1 l2 one two three =>
    rw [one, pmmFree] at first
    rw [two, pmmFree] at second
    rw [three, pmmFree] at third
    exact .inr ⟨l0, l1, l2, _, by rw [third, second, first], rfl⟩
  · refine .inl ⟨_, rfl, ?_⟩
    generalize (pmmAlloc c (pmmAlloc b (pmmAlloc a free).2).2) = last at *
    -- the pages come back in the order they were taken, so the list is turned around
    have turned := (pmmFree_perm last.1 (pmmFree_swap (pmmAlloc b (pmmAlloc a free).2).1 (pmmAlloc a free).1
      last.2)).trans ((pmmFree_swap last.1 (pmmAlloc a free).1 _).trans (pmmFree_perm _ (pmmFree_swap last.1 _ last.2)))
    rwa [third, second, first] at turned

end Pages

section Moves

variable {boot : Fin 512 → BitVec 64} {a b c : Bool}

inductive Mapping (s : Sys n) (m : Fin n) (va : Va) (ok fail : Prog n) : Prop where
  | map : s.pending = .map m va ok fail → Mapping s m va ok fail
  | clone {parent : Fin n} {pvm : VmMap} : s.pending = .clone parent m va ok fail → s.maps parent = some pvm →
      (pvm.lookup va).isSome = true → Mapping s m va ok fail

inductive Moved (boot : Fin 512 → BitVec 64) (s : Sys n) (a b : Bool) : Sys n → Prop where
  | refused {m : Fin n} {ok fail : Prog n} {free : List Page} : s.pending = .create m ok fail → free.Perm s.free →
      Moved boot s a b { s with free, pending := fail }
  | created {m : Fin n} {ok fail : Prog n} {l0 l1 l2 : Page} {free : List Page} : s.pending = .create m ok fail →
      s.maps m = none → s.free = l0 :: l1 :: l2 :: free →
        Moved boot s a b (s.put m (some (bootMap boot l0 l1 l2)) free ok)
  | full {m : Fin n} {va : Va} {ok fail : Prog n} {vm : VmMap} : Mapping s m va ok fail → s.maps m = some vm →
      mapUser4k vm s.free va a b = (none, s.free) → Moved boot s a b { s with pending := fail }
  | mapped {m : Fin n} {va : Va} {ok fail : Prog n} {vm vm' : VmMap} {free : List Page} : Mapping s m va ok fail →
      s.maps m = some vm → mapUser4k vm s.free va a b = (some vm', free) →
      Moved boot s a b ((s.put m (some vm') free ok).log (.map va))
  | skipped {parent child : Fin n} {va : Va} {ok fail : Prog n} : s.pending = .clone parent child va ok fail →
      Moved boot s a b { s with pending := ok }
  | unmapped {m : Fin n} {va : Va} {rest : Prog n} {vm : VmMap} : s.pending = .unmap m va rest → s.maps m = some vm →
      Moved boot s a b (s.put m (some (unmapUser4k vm s.free va).1) (unmapUser4k vm s.free va).2 rest)
  | read {src : Source} {off : Va} {len : Nat} {rest : Prog n} : s.pending = .read src off len rest →
      Moved boot s a b ({ s with pending := rest }.log (.read src off len))
  | copied {m : Fin n} {va off : Va} {src : Source} {len : Nat} {ok fail : Prog n} {vm : VmMap} :
      s.pending = .copyin m va src off len ok fail → s.maps m = some vm → copyinOk vm va len = true →
      Moved boot s a b ({ s with pending := ok }.log (.copy src off len))
  | uncopied {m : Fin n} {va off : Va} {src : Source} {len : Nat} {ok fail : Prog n} :
      s.pending = .copyin m va src off len ok fail → Moved boot s a b { s with pending := fail }
  | set {m : Fin n} {fields : Fields} {rest : Prog n} {vm : VmMap} :
      s.pending = .set m fields rest → s.maps m = some vm →
      Moved boot s a b (s.put m (some { vm with fields }) s.free rest)
  | destroyed {m : Fin n} {rest : Prog n} {vm : VmMap} : s.pending = .destroy m rest → s.maps m = some vm →
      Moved boot s a b (s.put m none (vmapDestroy vm s.free) rest)

theorem mapPage_moved {m : Fin n} {vm : VmMap} {va : Va} {ok fail : Prog n} (mapping : Mapping s m va ok fail)
    (live : s.maps m = some vm) : Moved boot s a b (mapPage s m vm va a b ok fail) := by
  rw [mapPage]
  split
  next free made =>
    have same := mapUser4k_none made
    subst same
    exact .full mapping live made
  next vm' free made => exact .mapped mapping live made

theorem update_maps {T : Fin n → VmMap → Prop} {m : Fin n} {vm : Option VmMap}
    (maps : ∀ m vm, s.maps m = some vm → T m vm)
    (updated : s'.maps = update s.maps m vm) (replaced : ∀ vm', vm = some vm' → T m vm') :
    ∀ m' vm', s'.maps m' = some vm' → T m' vm' := by
  intro m' vm' live
  rw [updated] at live
  rcases Function.update_cases live with ⟨rfl, new⟩ | ⟨-, live⟩
  · exact replaced vm' new
  · exact maps m' vm' live

theorem step_next (made : step boot s (.next a b c) = some s') : Moved boot s a b s' := by
  rw [step] at made
  split at made
  next => cases made
  next m ok fail pending =>
    obtain ⟨dead, made⟩ := Option.ite_none_left_eq_some.mp made
    rcases vmMapCreate_cases boot s.free a b c with ⟨free, refused, same⟩ | ⟨l0, l1, l2, rest, free, created⟩
    · simp only [refused] at made
      cases made
      exact .refused pending same
    · simp only [created] at made
      cases made
      exact .created pending (by simpa using dead) free
  next m va ok fail pending =>
    obtain ⟨vm, live, rfl⟩ := Option.map_eq_some_iff.mp made
    exact mapPage_moved (.map pending) live
  next parent child va ok fail pending =>
    split at made
    next pvm cvm parent child =>
      split at made
      next present =>
        cases made
        exact mapPage_moved (.clone pending parent present) child
      · cases made
        exact .skipped pending
    · cases made
  next m va rest pending =>
    obtain ⟨vm, live, rfl⟩ := Option.map_eq_some_iff.mp made
    exact .unmapped pending live
  next src off len rest pending =>
    cases made
    exact .read pending
  next m va src off len ok fail pending =>
    obtain ⟨vm, live, rfl⟩ := Option.map_eq_some_iff.mp made
    split
    next copied => exact .copied pending live copied
    · exact .uncopied pending
  next m fields rest pending =>
    obtain ⟨vm, live, rfl⟩ := Option.map_eq_some_iff.mp made
    exact .set pending live
  next m rest pending =>
    obtain ⟨vm, live, rfl⟩ := Option.map_eq_some_iff.mp made
    exact .destroyed pending live

theorem step_begin {call : Call n} (made : step boot s (.begin call) = some s') :
    ∃ prog, s.pending.idle = true ∧ program s call = some prog ∧
      s' = { s with pending := prog, call := some call, before := s.maps, events := [] } := by
  obtain ⟨idle, made⟩ := Option.ite_none_right_eq_some.mp made
  obtain ⟨prog, laid, rfl⟩ := Option.map_eq_some_iff.mp made
  exact ⟨prog, idle, laid, rfl⟩

end Moves

end Kappara.Vm
