import Kappara.Lib.Basic

/-! Fixed tables of slots.

An entry goes into the first free slot and leaves the first slot that holds it.
Up to the order of the slots, the listing of the table gains and loses just
that entry. -/

set_option autoImplicit false

abbrev SlotTable (n : Nat) (α : Type) := Fin n → Option α

namespace SlotTable

open Function (update update_eq_self)

variable {n : Nat} {α : Type} {t t' : SlotTable n α} {x : α}

def empty : SlotTable n α := fun _ => none

def toList (t : SlotTable n α) : List α := (List.finRange n).filterMap t

/-- Into the first free slot; none when the table is full. -/
def insert (t : SlotTable n α) (x : α) : Option (SlotTable n α) :=
  ((List.finRange n).find? fun i => (t i).isNone).map fun i => update t i (some x)

def remove [DecidableEq α] (t : SlotTable n α) (x : α) : SlotTable n α :=
  match (List.finRange n).find? fun i => t i = some x with
  | none => t
  | some i => update t i none

theorem mem_toList : x ∈ toList t ↔ ∃ i, t i = some x := by
  simp [toList]

theorem toList_update (t : SlotTable n α) (i : Fin n) (x : α) :
    (toList (update t i (some x))).Perm (x :: toList (update t i none)) := by
  obtain ⟨before, after, split⟩ := List.append_of_mem (List.mem_finRange i)
  have once : (before ++ i :: after).Nodup := split ▸ List.nodup_finRange n
  rw [List.nodup_append, List.nodup_cons] at once
  have others {slots : List (Fin n)} (out : i ∉ slots) (o : Option α) :
      slots.filterMap (update t i o) = slots.filterMap t := by
    apply List.filterMap_congr
    intro j member
    rw [Function.update_of_ne]
    rintro rfl
    exact out member
  have first : i ∉ before := fun member => once.2.2 i member i List.mem_cons_self rfl
  simp only [toList, split, List.filterMap_append, others first, List.filterMap_cons, Function.update_self,
    others once.2.1.1]
  exact List.perm_middle

theorem insert_perm (inserted : insert t x = some t') : (toList t').Perm (x :: toList t) := by
  rw [insert, Option.map_eq_some_iff] at inserted
  obtain ⟨i, found, rfl⟩ := inserted
  have free : t i = none := by simpa using List.find?_some found
  have same : update t i none = t := by rw [← free, update_eq_self]
  simpa [same] using toList_update t i x

variable [DecidableEq α]

theorem remove_perm (held : x ∈ toList t) : (toList t).Perm (x :: toList (remove t x)) := by
  rw [remove]
  split
  next missing =>
    obtain ⟨i, slot⟩ := mem_toList.mp held
    have none := List.find?_eq_none.mp missing i (List.mem_finRange i)
    simp [slot] at none
  next i found =>
    have slot : t i = some x := by simpa using List.find?_some found
    have same : update t i (some x) = t := by rw [← slot, update_eq_self]
    simpa [same] using toList_update t i x

theorem remove_of_not_mem (absent : x ∉ toList t) : remove t x = t := by
  rw [remove]
  split
  · rfl
  next i found =>
    have slot : t i = some x := by simpa using List.find?_some found
    exact absurd (mem_toList.mpr ⟨i, slot⟩) absent

end SlotTable
