import Kappara.Lib.Ledger
import Kappara.Vm.Steps

/-! Who owns a physical page.

The free list and the live maps are a ledger over the places a page can be in. A
page mapped where none was is moved from the list to its place; one mapped over
another page pushes that page out of the ledger. -/

set_option autoImplicit false

namespace Kappara.Vm

open Function (update)

variable {n : Nat} {s s' : Sys n}

def book (s : Sys n) : Ledger.Book (Fin n × Spot) Page where
  free := s.free
  held x := (s.maps x.1).bind fun vm => vm.page x.2

-- A page that is granted goes to an address that has none.
def mapsFresh (s : Sys n) : Act n → Bool
  | .begin _ => true
  | .next a _ _ =>
    let fresh (m : Fin n) (va : Va) : Bool := !a || s.free.isEmpty || (s.maps m).all fun vm => (vm.lookup va).isNone
    match s.pending with
    | .map m va _ _ => fresh m va
    | .clone parent child va _ _ => !((s.maps parent).any fun vm => (vm.lookup va).isSome) || fresh child va
    | _ => true

theorem spots_nodup : spots.Nodup := by
  rw [spots, List.nodup_append, List.nodup_flatMap]
  refine ⟨⟨?_, ?_⟩, by decide, ?_⟩
  · intro i _
    rw [List.nodup_append]
    exact ⟨(List.nodup_finRange 512).map fun j k same => by simpa using same, List.nodup_singleton _, by simp⟩
  · refine (List.nodup_finRange 512).imp fun {i k} apart => ?_
    intro spot one two
    cases spot <;> simp_all
  · intro spot one other two same
    subst same
    cases spot <;> simp_all

theorem mem_spots (spot : Spot) : spot ∈ spots := by
  cases spot <;> simp [spots]

section Ledger

variable {boot : Fin 512 → BitVec 64} {stock free : List Page} {m : Fin n} {vm vm' : VmMap} {va : Va} {a b c : Bool}

/-- The ledger's places with one map's pages replaced. -/
def place (s : Sys n) (m : Fin n) (pages : Spot → Option Page) : Fin n × Spot → Option Page :=
  fun x => if x.1 = m then pages x.2 else (book s).held x

theorem place_update (s : Sys n) (m : Fin n) (pages : Spot → Option Page) (spot : Spot) (value : Option Page) :
    place s m (update pages spot value) = update (place s m pages) (m, spot) value := by
  funext x
  obtain ⟨m', spot'⟩ := x
  by_cases same : m' = m
  · by_cases here : spot' = spot <;> simp [place, same, here]
  · simp [place, same]

theorem place_same (s : Sys n) (m : Fin n) : place s m (fun spot => (s.maps m).bind (·.page spot)) = (book s).held := by
  funext x
  by_cases same : x.1 = m <;> simp [place, book, same]

theorem place_live (live : s.maps m = some vm) : place s m vm.page = (book s).held := by
  rw [← place_same s m, live]
  rfl

theorem place_none (dead : s.maps m = none) : place s m (fun _ => none) = (book s).held := by
  rw [← place_same s m, dead]
  rfl

theorem book_put (s : Sys n) (m : Fin n) (vm : Option VmMap) (free : List Page) (pending : Prog n) :
    book (s.put m vm free pending) = ⟨free, place s m fun spot => vm.bind (·.page spot)⟩ := by
  rw [book, Sys.put]
  congr
  funext x
  by_cases same : x.1 = m <;> simp [place, book, same]

section

variable (balanced : Ledger.Balanced stock (book s))
include balanced

theorem Balanced.create {l0 l1 l2 : Page} (dead : s.maps m = none)
    (taken : s.free = l0 :: l1 :: l2 :: free) (pending : Prog n) :
    Ledger.Balanced stock (book (s.put m (some (bootMap boot l0 l1 l2)) free pending)) := by
  have pages : (fun spot => (bootMap boot l0 l1 l2).page spot) =
      update (update (update (fun _ => none) .l0 (some l0)) .l1 (some l1)) .l2 (some l2) := by
    funext spot
    cases spot <;> simp [VmMap.page, bootMap]
  have empty : ∀ spot, (book s).held (m, spot) = none := by simp [book, dead]
  rw [book_put]
  simp only [Option.bind_some, pages, place_update, place_none dead]
  refine ((balanced.take taken (empty .l0)).take rfl ?_).take rfl ?_ <;> simp [empty]

theorem Balanced.map {free' : List Page} (live : s.maps m = some vm)
    (made : Mapped vm s.free va vm' free') (fresh : vm.lookup va = none) (pending : Prog n) :
    Ledger.Balanced stock (book (s.put m (some vm') free' pending)) := by
  have empty : (book s).held (m, .user (l2Idx va) (l3Idx va)) = none := by
    simp [book, live, lookup_page, fresh]
  rw [book_put]
  cases made with
  | table taken pages =>
    simp only [Option.bind_some, pages, place_update, place_live live]
    exact balanced.take taken empty
  | fresh taken region pages =>
    simp only [Option.bind_some, pages, place_update, place_live live]
    refine (balanced.take taken empty).take rfl ?_
    simp [book, live, region]

theorem Balanced.unmap (live : s.maps m = some vm) (va : Va) (pending : Prog n) :
    Ledger.Balanced stock (book (s.put m (some (unmapUser4k vm s.free va).1) (unmapUser4k vm s.free va).2
      pending)) := by
  rw [book_put]
  rcases unmapUser4k_cases vm s.free va with ⟨_, none⟩ | ⟨p, mapped, back, pages⟩
  · simp only [none, Option.bind_some, place_live live]
    exact balanced
  · simp only [back, Option.bind_some, pages, place_update, place_live live]
    have released := balanced.release (List.nodup_singleton (m, Spot.user (l2Idx va) (l3Idx va)))
    have held : (book s).held (m, .user (l2Idx va) (l3Idx va)) = some p := by
      simp [book, live, lookup_page, mapped]
    convert released using 1
    simp only [Ledger.Book.release, List.filterMap_cons, held, List.filterMap_nil, List.mem_singleton,
      Ledger.Book.mk.injEq]
    refine ⟨rfl, ?_⟩
    funext x
    simp [Function.update_apply]

theorem Balanced.destroy (live : s.maps m = some vm) (pending : Prog n) :
    Ledger.Balanced stock (book (s.put m none (vmapDestroy vm s.free) pending)) := by
  have distinct : (spots.map fun spot => (m, spot)).Nodup := spots_nodup.map fun x y same => by simpa using same
  rw [book_put]
  convert balanced.release distinct using 1
  simp only [Ledger.Book.release, List.filterMap_map, vmapDestroy, Ledger.Book.mk.injEq]
  constructor
  · congr
    funext spot
    simp [book, live]
  · funext x
    obtain ⟨m', spot⟩ := x
    by_cases same : m' = m
    · simp [place, same, mem_spots]
    · simp [place, same, Ne.symm same]

end

/-- A page granted for an address goes where mapsFresh looks. -/
theorem mapsFresh_lookup {ok fail : Prog n} {c : Bool} {vm vm' : VmMap} {free : List Page}
    (mapping : Mapping s m va ok fail)
    (live : s.maps m = some vm) (made : mapUser4k vm s.free va a b = (some vm', free))
    (fresh : mapsFresh s (.next a b c) = true) : vm.lookup va = none := by
  obtain ⟨granted, mapped⟩ := mapUser4k_some made
  have stocked : s.free.isEmpty = false := by
    cases mapped with
    | table taken | fresh taken => simp [taken]
  cases mapping with
  | map pending => simpa [mapsFresh, pending, granted, stocked, live] using fresh
  | clone pending parent present => simpa [mapsFresh, pending, granted, stocked, live, parent, present] using fresh

theorem Balanced.step {act : Act n} (balanced : Ledger.Balanced stock (book s)) (fresh : mapsFresh s act = true)
    (made : step boot s act = some s') : Ledger.Balanced stock (book s') := by
  cases act with
  | begin call =>
    obtain ⟨_, _, _, rfl⟩ := step_begin made
    exact balanced
  | next a b c =>
    cases step_next made with
    | refused _ same => exact balanced.perm same
    | created _ dead taken => exact Balanced.create balanced dead taken _
    | full | skipped | read | copied | uncopied => exact balanced
    | @mapped m va ok _ vm vm' free mapping live placed =>
      exact Balanced.map balanced live (mapUser4k_some placed).2 (mapsFresh_lookup mapping live placed fresh) ok
    | unmapped _ live => exact Balanced.unmap balanced live _ _
    | @set m fields rest vm _ live =>
      rw [book_put]
      have same := place_live live
      exact same ▸ balanced
    | destroyed _ live => exact Balanced.destroy balanced live _

theorem Booted.balanced {pages : List Page} (booted : Booted pages s) : Ledger.Balanced pages (book s) := by
  obtain ⟨none, free, distinct, _⟩ := booted
  exact .start distinct (by simp [book, none]) free

end Ledger

/-- Every page is on the free list or in one place of one live map, in every run in which a granted
page never goes to an address that has one already. A map that goes gives each of its pages back once. -/
theorem pages_owned_once {boot : Fin 512 → BitVec 64} {pages : List Page}
    (reached : Run.Reach (step boot) (fun s act => mapsFresh s act = true) (Booted pages) s) :
    s.free.Nodup ∧ (∀ p ∈ pages, ∃! place, (book s).At p place) ∧
      ∀ m vm, s.maps m = some vm → ∀ spot p, vm.page spot = some p → p ∉ s.free ∧
        (vmapDestroy vm s.free).count p = 1 := by
  have balanced : Ledger.Balanced pages (book s) := by
    induction reached with
    | start booted => exact booted.balanced
    | next _ fresh made ih => exact Balanced.step ih fresh made
  refine ⟨balanced.nodup, fun p stocked => balanced.once stocked, ?_⟩
  intro m vm live spot p here
  have held : (book s).held (m, spot) = some p := by simp [book, live, here]
  refine ⟨balanced.apart p _ held, List.count_eq_one_of_mem ?_ ?_⟩
  · exact (Balanced.destroy balanced live (.done none)).nodup
  · exact List.mem_append_left _ (by simpa using ⟨spot, mem_spots spot, here⟩)

-- Two segments of one byte each, in the first page and in the page at the given offset.
def twoSegments (page : BitVec 8) : Image :=
  .ofBytes (execHeader 2 2 ++ [(64, 1), (83, 0x20), (104, 1), (120, 1), (137, page), (139, 0x20), (160, 1)]) 176
    (by decide)

def atBoot (pages : List Page) : Sys 1 := ⟨fun _ => none, pages, .done none, none, fun _ => none, []⟩

theorem atBoot_booted {pages : List Page} (distinct : pages.Nodup) : Booted pages (atBoot pages) :=
  ⟨fun _ => rfl, rfl, distinct, rfl, rfl, rfl⟩

-- The size of a file with one program header.
theorem header_small : 120 < 2 ^ 32 := by decide

-- A file of the given type with one program header, which is not to be loaded.
def plainImage (type : BitVec 8) : Image := .ofBytes (execHeader type 1) 120 header_small

-- The process of a program without segments: its map, one header, the stack and eight words.
def startPlain : List (Act 1) :=
  .begin (.execve 0 ⟨some (plainImage 2), plainImage 2, plainImage 2, [], ⟨some 7, true⟩⟩) ::
    List.replicate 523 (.next true true true)

-- The loader up to the second segment's page.
def loadTwo (page : BitVec 8) : List (Act 1) :=
  .begin (.execve 0 ⟨some (twoSegments page), twoSegments page, twoSegments page, [], ⟨some 7, false⟩⟩) ::
    List.replicate 5 (.next true true true)

theorem pages_owned_once_two_segments : ∃ s : Sys 1,
    (s.maps 0).bind (·.lookup 0x20001000) = some 5 ∧ ∀ p ∈ List.range 8, ∃! place, (book s).At p place := by
  obtain ⟨s, reached, mapped⟩ : ∃ s, Run.Reach (step fun _ => 0) (fun s act => mapsFresh s act = true)
      (Booted (List.range 8)) s ∧ (s.maps 0).bind (·.lookup 0x20001000) = some 5 :=
    Run.Reach.found (loadTwo 0x10) (atBoot_booted List.nodup_range) (by decide +kernel)
  exact ⟨s, mapped, (pages_owned_once reached).2.1⟩

-- The page is in no place of the map.
def VmMap.lacks (vm : VmMap) (p : Page) : Bool :=
  vm.l0 != p && vm.l1 != p && vm.l2 != p && (List.finRange 512).all fun i =>
    match vm.entries i with
    | .block _ => true
    | .table l3 pages => l3 != p && (List.finRange 512).all fun j => pages j != some p

theorem lacks_page {vm : VmMap} {p : Page} (lacks : vm.lacks p = true) (spot : Spot) : vm.page spot ≠ some p := by
  simp only [VmMap.lacks, Bool.and_eq_true, List.all_eq_true] at lacks
  obtain ⟨⟨⟨l0, l1⟩, l2⟩, region⟩ := lacks
  cases spot with
  | l0 => simpa [VmMap.page] using l0
  | l1 => simpa [VmMap.page] using l1
  | l2 => simpa [VmMap.page] using l2
  | l3 i | user i j =>
    have here := region i
    simp only [VmMap.page]
    split <;> simp_all

/-- Two segments in one page: the page of the first is nowhere when the second has its own. -/
theorem shared_page_lost : ∃ s : Sys 1,
    Run.Reach (step fun _ => 0) (fun _ _ => True) (Booted (List.range 8)) s ∧ ∀ place, ¬(book s).At 3 place := by
  obtain ⟨s, reached, unfree, lost⟩ : ∃ s : Sys 1, Run.Reach (step fun _ => 0) (fun _ _ => True)
      (Booted (List.range 8)) s ∧ 3 ∉ s.free ∧ (s.maps 0).all (·.lacks 3) = true :=
    Run.Reach.found (loadTwo 0) (atBoot_booted List.nodup_range) (by decide +kernel)
  refine ⟨s, reached, ?_⟩
  intro place here
  cases place with
  | none => simp_all [Ledger.Book.At, book]
  | some x =>
    obtain ⟨m, spot⟩ := x
    obtain ⟨vm, live, page⟩ := Option.bind_eq_some_iff.mp here
    rw [Subsingleton.elim m 0] at live
    exact lacks_page ((Option.all_eq_true _ _).mp lost vm live) spot page

end Kappara.Vm
