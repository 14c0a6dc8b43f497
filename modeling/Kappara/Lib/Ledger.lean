import Kappara.Lib.Basic

/-! A stock of pages, each of them on a free list or held in one place.

Taking a page off the list for an empty place, putting one back and putting the
pages of several places back keep the stock complete and without repetition. A
page taken for a place that holds one already is what loses the older page. -/

set_option autoImplicit false

namespace Ledger

variable {Place Page : Type}

structure Book (Place Page : Type) where
  free : List Page
  held : Place → Option Page

def Book.At (book : Book Place Page) (page : Page) : Option Place → Prop
  | none => page ∈ book.free
  | some place => book.held place = some page

structure Balanced (stock : List Page) (book : Book Place Page) : Prop where
  nodup : book.free.Nodup
  single : ∀ page x y, book.held x = some page → book.held y = some page → x = y
  apart : ∀ page x, book.held x = some page → page ∉ book.free
  total : ∀ page, page ∈ stock ↔ page ∈ book.free ∨ ∃ x, book.held x = some page

variable {stock : List Page} {book : Book Place Page}

theorem Balanced.once (balanced : Balanced stock book) {page : Page} (stocked : page ∈ stock) :
    ∃! place, book.At page place := by
  cases (balanced.total page).mp stocked with
  | inl free =>
    refine ⟨none, free, ?_⟩
    intro place here
    cases place with
    | none => rfl
    | some x => exact absurd free (balanced.apart page x here)
  | inr held =>
    obtain ⟨x, held⟩ := held
    refine ⟨some x, held, ?_⟩
    intro place here
    cases place with
    | none => exact absurd here (balanced.apart page x held)
    | some y => exact congrArg some (balanced.single page y x here held)

theorem Balanced.start (stocked : stock.Nodup) (empty : ∀ x, book.held x = none) (free : book.free = stock) :
    Balanced stock book where
  nodup := free ▸ stocked
  single page x _ here := by simp [empty] at here
  apart page x here := by simp [empty] at here
  total page := by simp [empty, free]

theorem Balanced.perm {free : List Page} (balanced : Balanced stock book) (same : free.Perm book.free) :
    Balanced stock ⟨free, book.held⟩ where
  nodup := same.nodup_iff.mpr balanced.nodup
  single := balanced.single
  apart page x held inside := balanced.apart page x held (same.mem_iff.mp inside)
  total page := by simp [balanced.total, same.mem_iff]

section
variable [DecidableEq Place]

theorem Balanced.take {place : Place} {page : Page} {rest : List Page} (balanced : Balanced stock book)
    (free : book.free = page :: rest) (empty : book.held place = none) :
    Balanced stock ⟨rest, Function.update book.held place (some page)⟩ := by
  have nodup := balanced.nodup
  rw [free, List.nodup_cons] at nodup
  have elsewhere : ∀ x, book.held x ≠ some page := by
    intro x held
    exact balanced.apart page x held (free ▸ List.mem_cons_self)
  constructor
  · exact nodup.2
  · intro other x y
    simp only [Function.update_apply]
    split <;> split
    · simp_all
    · rintro ⟨⟩ held
      exact absurd held (elsewhere y)
    · rintro held ⟨⟩
      exact absurd held (elsewhere x)
    · exact balanced.single other x y
  · intro other x
    simp only [Function.update_apply]
    split
    · rintro ⟨⟩
      exact nodup.1
    · intro held inside
      exact balanced.apart other x held (free ▸ List.mem_cons_of_mem page inside)
  · intro other
    rw [balanced.total, free, List.mem_cons]
    constructor
    · rintro ((rfl | inside) | ⟨x, held⟩)
      · exact .inr ⟨place, by simp⟩
      · exact .inl inside
      · have other' : x ≠ place := by
          rintro rfl
          simp [empty] at held
        exact .inr ⟨x, by simp [other', held]⟩
    · rintro (inside | ⟨x, held⟩)
      · exact .inl (.inr inside)
      · simp only [Function.update_apply] at held
        split at held
        · cases held
          exact .inl (.inl rfl)
        · exact .inr ⟨x, held⟩

/-- The pages of the given places go back to the list, in that order. -/
def Book.release (book : Book Place Page) (places : List Place) : Book Place Page :=
  ⟨(places.filterMap book.held).reverse ++ book.free, fun x => if x ∈ places then none else book.held x⟩

theorem Balanced.release {places : List Place} (balanced : Balanced stock book) (distinct : places.Nodup) :
    Balanced stock (book.release places) := by
  have returned : ∀ page, page ∈ (places.filterMap book.held).reverse ↔ ∃ x ∈ places, book.held x = some page := by
    simp
  constructor
  · simp only [Book.release]
    rw [List.nodup_append]
    refine ⟨?_, balanced.nodup, ?_⟩
    · rw [List.nodup_reverse]
      exact List.Nodup.filterMap (fun x y page one two => balanced.single page x y one two) distinct
    · rintro page back _ free rfl
      obtain ⟨x, _, held⟩ := (returned page).mp back
      exact balanced.apart page x held free
  · intro page x y
    simp only [Book.release]
    split
    · rintro ⟨⟩
    · split
      · rintro _ ⟨⟩
      · exact balanced.single page x y
  · intro page x
    simp only [Book.release]
    split
    · rintro ⟨⟩
    next outside =>
      intro held inside
      cases List.mem_append.mp inside with
      | inl back =>
        obtain ⟨y, given, held'⟩ := (returned page).mp back
        exact outside (balanced.single page x y held held' ▸ given)
      | inr free => exact balanced.apart page x held free
  · intro page
    simp only [balanced.total, Book.release, List.mem_append, returned]
    constructor
    · rintro (free | ⟨x, held⟩)
      · exact .inl (.inr free)
      · by_cases given : x ∈ places
        · exact .inl (.inl ⟨x, given, held⟩)
        · exact .inr ⟨x, by simp [given, held]⟩
    · rintro ((⟨x, _, held⟩ | free) | ⟨x, held⟩)
      · exact .inr ⟨x, held⟩
      · exact .inl free
      · split at held
        · cases held
        · exact .inr ⟨x, held⟩

end

end Ledger
