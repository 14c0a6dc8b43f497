import Kappara.Lib.Basic

/-! Linked lists over cells with link fields.

A path follows one link field through the listed cells. A singly linked list is
a path that ends in null, and a doubly linked list is two such paths, one from
either end. Both kinds are changed by storing to one link: the field of the last
cell passed, or the anchor when no cell has been passed. -/

set_option autoImplicit false

namespace Links

open Function (forall_update_iff update update_apart update_of_ne update_self)
open List (mem_cons_of_mem mem_cons_self nodup_append nodup_cons)

variable {α : Type} {next next' : α → Option α} {start stop : Option α} {x : α} {l l' : List α}

/-- Following next from start passes the listed cells and arrives at stop. -/
def Path (next : α → Option α) : Option α → List α → Option α → Prop
  | start, [], stop => start = stop
  | start, x :: rest, stop => start = some x ∧ Path next (next x) rest stop

theorem Path.congr (path : Path next start l stop) (same : ∀ x ∈ l, next' x = next x) : Path next' start l stop := by
  induction l generalizing start with
  | nil => exact path
  | cons x rest ih =>
    refine ⟨path.1, ?_⟩
    rw [same x mem_cons_self]
    exact ih path.2 fun y member => same y (mem_cons_of_mem x member)

theorem path_append : Path next start (l ++ l') stop ↔ ∃ mid, Path next start l mid ∧ Path next mid l' stop := by
  induction l generalizing start with
  | nil => simp [Path]
  | cons x rest ih => simp [Path, ih, and_assoc]

theorem Path.head (path : Path next start l none) : start = l.head? := by
  cases l with
  | nil => exact path
  | cons x rest => exact path.1

theorem Path.unique (path : Path next start l none) (path' : Path next start l' none) : l = l' := by
  induction l generalizing start l' with
  | nil =>
    cases l' with
    | nil => rfl
    | cons y rest =>
      cases path.symm.trans path'.1
  | cons x rest ih =>
    cases l' with
    | nil => cases path.1.symm.trans path'
    | cons y rest' =>
      have same : x = y := Option.some.inj (path.1.symm.trans path'.1)
      subst same
      rw [ih path.2 path'.2]

/-- The first cell of a list that passes a test; none where the loop runs on. -/
def search (next : α → Option α) (test : α → Bool) : Nat → Option α → Option (Option α)
  | 0, _ => none
  | _ + 1, none => some none
  | fuel + 1, some x => if test x then some (some x) else search next test fuel (next x)

theorem Path.search {test : α → Bool} {fuel : Nat} (path : Path next start l none) (enough : l.length < fuel) :
    Links.search next test fuel start = some (l.find? test) := by
  induction l generalizing start fuel with
  | nil =>
    cases fuel with
    | zero => cases enough
    | succ fuel =>
      cases path
      rfl
  | cons x rest ih =>
    cases fuel with
    | zero => cases enough
    | succ fuel =>
      rw [path.1, Links.search, List.find?_cons]
      cases test x with
      | true => rfl
      | false => exact ih path.2 (by simpa using enough)

section Store

variable [DecidableEq α] {anchor : Option α}

/-- A store through a link: the field of a cell, or the anchor. -/
def redirect (next : α → Option α) (anchor link value : Option α) : (α → Option α) × Option α :=
  match link with
  | none => (next, value)
  | some p => (update next p value, anchor)

def deref (next : α → Option α) (anchor : Option α) : Option α → Option α
  | none => anchor
  | some p => next p

theorem redirect_of_ne (value : Option α) (other : some x ≠ stop) : (redirect next anchor stop value).1 x = next x := by
  cases stop with
  | none => rfl
  | some p =>
    apply update_of_ne
    rintro rfl
    exact other rfl

/-- A store behind the last cell of a path makes the path arrive at the stored value. -/
theorem Path.redirect (path : Path next anchor l stop) (once : l.Nodup) (value : Option α) :
    Path (redirect next anchor l.getLast? value).1 (redirect next anchor l.getLast? value).2 l value := by
  cases l using List.reverseRecOn with
  | nil => rfl
  | append_singleton front p =>
    rw [nodup_append] at once
    obtain ⟨mid, before, at_p, -⟩ := path_append.mp path
    rw [List.getLast?_concat, Links.redirect]
    refine path_append.mpr ⟨mid, ?_, at_p, ?_⟩
    · apply before.congr
      intro y member
      apply update_of_ne
      rintro rfl
      exact once.2.2 y member y mem_cons_self rfl
    · exact update_self p value next

theorem Path.snoc (path : Path next anchor l none) (once : l.Nodup) (absent : x ∉ l) :
    Path (Links.redirect (update next x none) anchor l.getLast? (some x)).1
      (Links.redirect (update next x none) anchor l.getLast? (some x)).2 (l ++ [x]) none := by
  have unchanged : Path (update next x none) anchor l none :=
    path.congr fun y member => update_of_ne (ne_of_mem_of_not_mem member absent) _ _
  have inner : some x ≠ l.getLast? := fun same => absent (List.mem_of_getLast? same.symm)
  refine path_append.mpr ⟨some x, unchanged.redirect once (some x), rfl, ?_⟩
  rw [redirect_of_ne _ inner, update_self]
  rfl

end Store

section Single

variable [DecidableEq α] {anchor : Option α} {before after : List α}

/-- The loop that looks for a cell and stops at the link that leads to it, or at the null link. -/
def seek (next : α → Option α) (anchor : Option α) (x : α) : Nat → Option α → Option (Option α)
  | 0, _ => none
  | fuel + 1, link =>
    match deref next anchor link with
    | none => some link
    | some y => if y = x then some link else seek next anchor x fuel (some y)

/-- Takes a cell out of a singly linked list; none where the loop runs on. -/
def remove (next : α → Option α) (anchor : Option α) (x : α) (fuel : Nat) : Option ((α → Option α) × Option α) :=
  match seek next anchor x fuel none with
  | none => none
  | some link =>
    let (next', anchor') := if deref next anchor link = some x then redirect next anchor link (next x)
      else (next, anchor)
    some (update next' x none, anchor')

theorem seek_found {link : Option α} {fuel : Nat} (path : Path next (deref next anchor link) before (some x))
    (absent : x ∉ before) (enough : before.length < fuel) :
    seek next anchor x fuel link = some (before.getLast?.or link) := by
  induction before generalizing link fuel with
  | nil =>
    cases fuel with
    | zero => cases enough
    | succ fuel => simp [seek, show deref next anchor link = some x from path]
  | cons y rest ih =>
    cases fuel with
    | zero => cases enough
    | succ fuel =>
      have differs : y ≠ x := fun same => absent (same ▸ mem_cons_self)
      rw [seek, path.1]
      simp only [if_neg differs]
      rw [@ih (some y) fuel path.2 (fun member => absent (mem_cons_of_mem y member)) (by simpa using enough)]
      cases last : rest.getLast? <;> simp [List.getLast?_cons, last]

theorem Path.remove {fuel : Nat} (path : Path next anchor (before ++ x :: after) none)
    (once : (before ++ x :: after).Nodup) (enough : before.length < fuel) :
    ∃ next' anchor', Links.remove next anchor x fuel = some (next', anchor') ∧
      Path next' anchor' (before ++ after) none ∧ (∀ y, y ∉ before → y ≠ x → next' y = next y) ∧ next' x = none := by
  obtain ⟨mid, front, rfl, rear⟩ := path_append.mp path
  rw [nodup_append, nodup_cons] at once
  obtain ⟨onceFront, ⟨absentRear, -⟩, apart⟩ := once
  have absent : x ∉ before := fun member => apart x member x mem_cons_self rfl
  have found := @seek_found α next x _ anchor before none fuel front absent enough
  rw [Option.or_none] at found
  have points : deref next anchor before.getLast? = some x := by
    cases before using List.reverseRecOn with
    | nil => exact front
    | append_singleton init p =>
      rw [List.getLast?_concat]
      obtain ⟨_, -, -, last⟩ := path_append.mp front
      exact last
  have removed : Links.remove next anchor x fuel =
    some (update (Links.redirect next anchor before.getLast? (next x)).1 x none,
      (Links.redirect next anchor before.getLast? (next x)).2) := by
    rw [Links.remove, found]
    simp only [points, if_true]
  refine ⟨_, _, removed, ?_, ?_, by simp⟩
  · refine path_append.mpr ⟨next x, ?_, ?_⟩
    · apply (front.redirect onceFront (next x)).congr
      intro y member
      exact update_of_ne (ne_of_mem_of_not_mem member absent) _ _
    · apply rear.congr
      intro y member
      rw [update_of_ne (ne_of_mem_of_not_mem member absentRear)]
      apply redirect_of_ne
      intro last
      exact apart y (List.mem_of_getLast? last.symm) y (mem_cons_of_mem x member) rfl
  · intro y outside differs
    rw [update_of_ne differs]
    apply redirect_of_ne
    intro last
    exact outside (List.mem_of_getLast? last.symm)

end Single

section Buckets

variable {β : Type} [DecidableEq α] [DecidableEq β] {buckets : β → Option α} {chains : β → List α} {h : β}
  {before after : List α}

/-- The buckets lead to the listed chains, which have no cell in common. -/
structure Chained (buckets : β → Option α) (next : α → Option α) (chains : β → List α) : Prop where
  path : ∀ h, Path next (buckets h) (chains h) none
  once : ∀ h, (chains h).Nodup
  apart : ∀ h h' x, x ∈ chains h → x ∈ chains h' → h = h'

section

variable (chained : Chained buckets next chains)
include chained

omit [DecidableEq α] in
theorem Chained.replace {head : Option α} (path : Path next' head l none) (once : l.Nodup)
    (apart : ∀ h' x, h' ≠ h → x ∈ chains h' → x ∉ l) (same : ∀ h' x, h' ≠ h → x ∈ chains h' → next' x = next x) :
    Chained (update buckets h head) next' (update chains h l) := by
  constructor
  · intro h'
    by_cases here : h' = h
    · subst here
      rwa [update_self, update_self]
    · rw [update_of_ne here, update_of_ne here]
      exact (chained.path h').congr fun x member => same h' x here member
  · exact (forall_update_iff chains fun _ l => l.Nodup).mpr ⟨once, fun h' _ => chained.once h'⟩
  · intro h₁ h₂ x first second
    exact update_apart (chained.apart · · x) (apart · x) first second

theorem Chained.push (h : β) (absent : ∀ h, x ∉ chains h) :
    Chained (update buckets h (some x)) (update next x (buckets h))
      (update chains h (x :: chains h)) := by
  have unchanged (h' : β) (y : α) (member : y ∈ chains h') : update next x (buckets h) y = next y :=
    update_of_ne (ne_of_mem_of_not_mem member (absent h')) _ _
  apply chained.replace
  · refine ⟨rfl, ?_⟩
    rw [update_self]
    exact (chained.path h).congr fun y member => unchanged h y member
  · exact List.nodup_cons.mpr ⟨absent h, chained.once h⟩
  · intro h' y other member inside
    rcases List.mem_cons.mp inside with rfl | inside
    · exact absent h' member
    · exact other (chained.apart h' h y member inside)
  · exact fun h' y _ member => unchanged h' y member

theorem Chained.append (h : β) (absent : ∀ h, x ∉ chains h) :
    Chained (update buckets h (Links.redirect (update next x none) (buckets h) (chains h).getLast? (some x)).2)
      (Links.redirect (update next x none) (buckets h) (chains h).getLast? (some x)).1
      (update chains h (chains h ++ [x])) := by
  apply chained.replace
  · exact (chained.path h).snoc (chained.once h) (absent h)
  · rw [nodup_append]
    refine ⟨chained.once h, List.nodup_singleton x, ?_⟩
    intro y member z single
    rw [List.mem_singleton.mp single]
    exact ne_of_mem_of_not_mem member (absent h)
  · intro h' y other member inside
    rcases List.mem_append.mp inside with inside | single
    · exact other (chained.apart h' h y member inside)
    · exact absent h' (List.mem_singleton.mp single ▸ member)
  · intro h' y other member
    rw [redirect_of_ne, update_of_ne (ne_of_mem_of_not_mem member (absent h'))]
    intro last
    exact other (chained.apart h' h y member (List.mem_of_getLast? last.symm))

theorem Chained.pop (first : chains h = x :: l) (value : Option α) :
    Chained (update buckets h (next x)) (update next x value) (update chains h l) := by
  have path := chained.path h
  have once := chained.once h
  rw [first] at path once
  have mine : x ∈ chains h := first ▸ mem_cons_self
  apply chained.replace
  · exact path.2.congr fun y member => update_of_ne (ne_of_mem_of_not_mem member (List.nodup_cons.mp once).1) _ _
  · exact (List.nodup_cons.mp once).2
  · exact fun h' y other member inside => other (chained.apart h' h y member (first ▸ mem_cons_of_mem x inside))
  · intro h' y other member
    apply update_of_ne
    rintro rfl
    exact other (chained.apart h' h y member mine)

end

section

variable (chained : Chained buckets next chains)
include chained

omit [DecidableEq α] in
theorem Chained.move {h' : β} : Chained (update (update buckets h none) h' (buckets h)) next
      (update (update chains h []) h' (chains h)) := by
  have emptied : Chained (update buckets h none) next (update chains h []) :=
    chained.replace rfl List.nodup_nil (fun _ _ _ _ => List.not_mem_nil) (fun _ _ _ _ => rfl)
  apply emptied.replace (chained.path h) (chained.once h)
  · intro k x differs member inside
    by_cases same : k = h
    · subst same
      simp at member
    · rw [update_of_ne same] at member
      exact same (chained.apart k h x member inside)
  · exact fun _ _ _ _ => rfl

theorem Chained.unlink {fuel : Nat} (split : chains h = before ++ x :: after) (enough : (chains h).length ≤ fuel) :
    ∃ next' bucket, Links.remove next (buckets h) x fuel = some (next', bucket) ∧
      Chained (update buckets h bucket) next' (update chains h (before ++ after)) ∧ next' x = none := by
  have path := chained.path h
  have once := chained.once h
  rw [split] at path once enough
  rw [List.length_append, List.length_cons] at enough
  have short : before.length < fuel := by omega
  obtain ⟨next', bucket, removed, rest, others, last⟩ := path.remove once short
  refine ⟨next', bucket, removed, ?_, last⟩
  have member (y : α) (inside : y ∈ before ++ x :: after) : y ∈ chains h := split ▸ inside
  apply chained.replace rest
  · exact once.sublist (List.Sublist.append_left (List.sublist_cons_self x after) before)
  · intro h' y differs inside kept
    exact differs (chained.apart h' h y inside
      (member y ((List.Sublist.append_left (List.sublist_cons_self x after) before).subset kept)))
  · intro h' y differs inside
    apply others
    · exact fun front => differs (chained.apart h' h y inside (member y (List.mem_append_left _ front)))
    · rintro rfl
      exact differs (chained.apart h' h y inside (member y (by simp)))

theorem Chained.remove {fuel : Nat} (member : x ∈ chains h) (enough : (chains h).length ≤ fuel) :
    ∃ next' bucket chains', Links.remove next (buckets h) x fuel = some (next', bucket) ∧
      Chained (update buckets h bucket) next' chains' ∧ ∀ h' y, y ∈ chains' h' ↔ y ∈ chains h' ∧ y ≠ x := by
  obtain ⟨before, after, split⟩ := List.append_of_mem member
  obtain ⟨next', bucket, removed, unlinked, -⟩ := chained.unlink split enough
  refine ⟨next', bucket, _, removed, unlinked, ?_⟩
  intro h' y
  by_cases same : h' = h
  · subst same
    have once := chained.once h'
    rw [split, List.nodup_middle, nodup_cons] at once
    rw [update_self, split]
    constructor
    · intro kept
      exact ⟨(List.Sublist.append_left (List.sublist_cons_self x after) before).subset kept,
        ne_of_mem_of_not_mem kept once.1⟩
    · rintro ⟨inside, differs⟩
      simpa [differs] using inside
  · rw [update_of_ne same]
    exact ⟨fun inside => ⟨inside, fun equal => same (chained.apart h' h x (equal ▸ inside) member)⟩,
      fun inside => inside.1⟩

theorem Chained.insert (h : β) (absent : ∀ h, x ∉ chains h) :
    ∃ chains', Chained (update buckets h (some x)) (update next x (buckets h)) chains' ∧
      ∀ h' y, y ∈ chains' h' ↔ y ∈ chains h' ∨ h' = h ∧ y = x := by
  refine ⟨_, chained.push h absent, ?_⟩
  intro h' y
  by_cases same : h' = h
  · subst same
    simp [or_comm]
  · simp [same]

end

end Buckets

section Double

/-- A doubly linked list with both ends known. -/
structure Queue (α : Type) where
  head : Option α
  tail : Option α
  next : α → Option α
  prev : α → Option α

variable [DecidableEq α] {q : Queue α} {before after : List α}

def Queue.unlink (q : Queue α) (x : α) : Queue α :=
  let forward := redirect q.next q.head (q.prev x) (q.next x)
  let backward := redirect q.prev q.tail (forward.1 x) (q.prev x)
  ⟨forward.2, backward.2, update forward.1 x none, update backward.1 x none⟩

def Queue.insertTail (q : Queue α) (x : α) : Queue α :=
  let forward := redirect (update q.next x none) q.head q.tail (some x)
  ⟨forward.2, some x, forward.1, update q.prev x q.tail⟩

/-- Both walks visit the listed cells, the second one in reverse, and no cell twice. -/
structure Queue.Lists (q : Queue α) (l : List α) : Prop where
  forward : Path q.next q.head l none
  backward : Path q.prev q.tail l.reverse none
  once : l.Nodup

/-- The list seen from its other end. -/
def Queue.flip (q : Queue α) : Queue α := ⟨q.tail, q.head, q.prev, q.next⟩

section

omit [DecidableEq α]

theorem Queue.Lists.flip (lists : q.Lists l) : q.flip.Lists l.reverse :=
  ⟨lists.backward, l.reverse_reverse.symm ▸ lists.forward, List.nodup_reverse.mpr lists.once⟩

variable (lists : q.Lists (before ++ x :: after))
include lists

theorem Queue.Lists.flip_at : q.flip.Lists (after.reverse ++ x :: before.reverse) := by
  simpa using lists.flip

-- The links of a cell lead to its neighbours in the list.
theorem Queue.Lists.next_eq : q.next x = after.head? := by
  obtain ⟨_, -, -, rear⟩ := path_append.mp lists.forward
  exact rear.head

theorem Queue.Lists.prev_eq : q.prev x = before.getLast? := by
  rw [← List.head?_reverse]
  exact lists.flip_at.next_eq

end

theorem Queue.Lists.bypass (lists : q.Lists (before ++ x :: after)) :
    Path (update (redirect q.next q.head before.getLast? after.head?).1 x none)
      (redirect q.next q.head before.getLast? after.head?).2 (before ++ after) none := by
  have once := lists.once
  rw [nodup_append, nodup_cons] at once
  obtain ⟨onceFront, ⟨absentRear, -⟩, apart⟩ := once
  obtain ⟨_, front, rfl, rear⟩ := path_append.mp lists.forward
  refine path_append.mpr ⟨after.head?, ?_, ?_⟩
  · apply (front.redirect onceFront after.head?).congr
    intro y member
    exact update_of_ne (apart y member x mem_cons_self) _ _
  · rw [← rear.head]
    apply rear.congr
    intro y member
    rw [update_of_ne (ne_of_mem_of_not_mem member absentRear)]
    apply redirect_of_ne
    intro last
    exact apart y (List.mem_of_getLast? last.symm) y (mem_cons_of_mem x member) rfl

theorem Queue.Lists.unlink (lists : q.Lists (before ++ x :: after)) : (q.unlink x).Lists (before ++ after) := by
  have once := lists.once
  rw [List.nodup_middle, nodup_cons] at once
  have still : (redirect q.next q.head (q.prev x) (q.next x)).1 x = q.next x := by
    apply redirect_of_ne
    rw [lists.prev_eq]
    intro last
    exact once.1 (List.mem_append_left _ (List.mem_of_getLast? last.symm))
  have behind := lists.flip_at.bypass
  rw [List.getLast?_reverse, List.head?_reverse, ← List.reverse_append] at behind
  rw [Queue.unlink, still, lists.prev_eq, lists.next_eq]
  exact ⟨lists.bypass, behind, once.2⟩

theorem Queue.Lists.insertTail (lists : q.Lists l) (absent : x ∉ l) : (q.insertTail x).Lists (l ++ [x]) := by
  have last : q.tail = l.getLast? := by rw [lists.backward.head, List.head?_reverse]
  constructor
  · rw [Queue.insertTail, last]
    exact lists.forward.snoc lists.once absent
  · rw [List.reverse_concat]
    refine ⟨rfl, ?_⟩
    rw [Queue.insertTail]
    dsimp only
    rw [update_self]
    apply lists.backward.congr
    intro y member
    apply update_of_ne
    rintro rfl
    exact absent (List.mem_reverse.mp member)
  · rw [nodup_append]
    refine ⟨lists.once, List.nodup_singleton x, ?_⟩
    intro y member z single
    rw [List.mem_singleton.mp single]
    rintro rfl
    exact absent member

end Double

end Links
