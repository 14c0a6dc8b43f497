import Kappara.Sched.Moves

/-! Steps that leave the processors alone.

Creation, dispatch, wake-up, signal wake-up and reaping move threads between lists. A wait
queue or the reap list is changed under its lock only, so no thread on it is still on a
processor. -/

set_option autoImplicit false

namespace Kappara.Sched

open Function (update update_eq_self update_idem update_of_ne update_self)

variable {n N : Nat} {s s' : Sys n N} {places : Places n N} {lists : Lists n N} {c : Fin n} {t : Fin N}
  {q : Queue n N} {w : Nat} {wq : WaitQueue N} {p : Place n N}

def Good (s : Sys n N) : Prop := ∃ places lists, Agrees s places lists

theorem update_within {P : Place n N → Prop} {Q : Fin N → Prop} (before : P (places t)) (after : P p) (apart : Q t)
    (x : Fin N) : update places t p x = places x ∨ P (places x) ∧ P (update places t p x) ∧ Q x := by
  by_cases same : x = t
  · subst same
    rw [update_self]
    exact .inr ⟨before, after, apart⟩
  · exact .inl (update_of_ne same _ _)

theorem Agrees.unused (agrees : Agrees s places lists) (none : s.threads t = none) :
    places t = .unused ∧ ∀ c, (s.cpu c).phase ≠ .switching t := by
  have fits := agrees.fits t
  rw [none] at fits
  have place : places t = .unused := fits
  refine ⟨place, fun c phase => ?_⟩
  cases ((agrees.cpu c).switching phase).2.2 with
  | pending there | parked there | list there =>
    rw [place] at there
    cases there

theorem Agrees.create (agrees : Agrees s places lists) (made : kthreadCreate s t w = some s') : Good s' := by
  obtain ⟨enabled, made⟩ := Option.ite_none_left_eq_some.mp made
  simp only [Bool.or_eq_true, not_or, Bool.not_eq_true, Option.isSome_eq_false_iff, Option.isNone_iff_eq_none,
    Bool.not_eq_true', Bool.not_eq_false, Sys.isFree] at enabled
  obtain ⟨none, free⟩ := enabled
  cases made
  obtain ⟨place, apart⟩ := agrees.unused none
  have off : (places t).queue = Option.none := by rw [place]; rfl
  have empty := agrees.listed.empty free
  have chained := agrees.listed.chained.push (.hand w) (Member.absent agrees.member off)
  rw [free, empty] at chained
  refine ⟨update places t (.list (.hand w)), update lists (.hand w) [t], agrees.relocate rfl rfl rfl ?_ ?_ ?_ ?_⟩
  · exact agrees.listed.other chained (fun c pri => update_of_ne (by simp) _ _) rfl rfl rfl rfl
  · exact Member.into agrees.member off rfl fun x => by simp [empty]
  · exact Fits.update agrees.fits rfl
  · exact update_within (P := (·.owner = .none)) (by rw [place]; rfl) rfl apart

variable {l : List (Fin N)} {threads : Fin N → Option (Kthread N)} {mark : Kthread N → Kthread N}
variable {next : Fin N → Option (Fin N)}

theorem mem_rest {rest : List (Fin N)} (once : l.Nodup) (first : l = t :: rest) (x : Fin N) :
    x ∈ rest ↔ x ∈ l ∧ x ≠ t := by
  subst first
  rw [List.nodup_cons] at once
  constructor
  · exact fun inside => ⟨List.mem_cons_of_mem t inside, ne_of_mem_of_not_mem inside once.1⟩
  · rintro ⟨inside, other⟩
    simpa [other] using inside

/-- Where the fields that decide the place of a thread stay, so does the place. -/
theorem fits_congr {k k' : Kthread N} (state : k'.state = k.state) (waiting : k'.waitingOn = k.waitingOn)
    (fits : p.Fits (some k)) : p.Fits (some k') := by
  have queue (q : Queue n N) (here : q.Fits k) : q.Fits k' := by
    cases q with
    | disp | hand | reap | drain => exact state.trans here
    | wait => exact ⟨state.trans here.1, waiting.trans here.2⟩
  cases p with
  | unused => exact fits
  | list q | leaving c q => exact queue q fits
  | running | pending | taken | parked => exact state.trans fits

theorem fits_list {o : Option (Kthread N)} (fits : (Place.list q).Fits o) : ∃ k, o = some k ∧ q.Fits k := by
  cases o with
  | none => cases fits
  | some k => exact ⟨k, rfl, fits⟩

theorem fits_blocked {k : Kthread N} (fits : p.Fits (some k)) (blocked : k.state = .blocked)
    (waits : k.waitingOn = some wq) : p.queue = some (.wait wq) := by
  have queue (q : Queue n N) (here : q.Fits k) : some q = some (.wait wq) := by
    cases q with
    | disp | hand | reap | drain => cases blocked.symm.trans here
    | wait wq' => rw [← Option.some.inj (waits.symm.trans here.2)]
  cases p with
  | unused => cases fits
  | list q | leaving c q => exact queue q fits
  | running | pending | taken | parked => cases blocked.symm.trans fits

theorem Agrees.modify {f : Kthread N → Kthread N} (agrees : Agrees s places lists) (state : ∀ k, (f k).state = k.state)
    (waiting : ∀ k, (f k).waitingOn = k.waitingOn) (t : Fin N) : Good (s.modify t f) := by
  refine ⟨places, lists, agrees.relocate rfl rfl rfl ⟨agrees.listed.chained, agrees.listed.tail, agrees.listed.active⟩
    agrees.member (fun x => ?_) fun _ => .inl rfl⟩
  have fits := agrees.fits x
  rw [Sys.modify]
  by_cases same : x = t
  · subst same
    simp only [update_self]
    cases here : s.threads x with
    | none => rwa [here] at fits
    | some k =>
      rw [here] at fits
      exact fits_congr (state k) (waiting k) fits
  · simpa only [update_of_ne same] using fits

theorem Agrees.held_first (agrees : Agrees s places lists) (head : s.head q = some t) (open' : q.lock = none) :
    places t = .list q ∧ (∀ c, (s.cpu c).phase ≠ .switching t) ∧ ∃ rest, lists q = t :: rest := by
  obtain ⟨rest, first, _⟩ := agrees.listed.first head
  have inside : t ∈ lists q := by simp [first]
  obtain ⟨place, apart⟩ := agrees.resting inside fun l locked => by simp [open'] at locked
  exact ⟨place, apart, rest, first⟩

theorem Fits.move (fits : ∀ t, (places t).Fits (threads t))
    (used : places t ≠ .unused) (new : ∀ k, (places t).Fits (some k) → p.Fits (some k)) (x : Fin N) :
    (Function.update places t p x).Fits (threads x) := by
  by_cases same : x = t
  · subst same
    rw [update_self]
    have old := fits x
    cases here : threads x with
    | none =>
      rw [here] at old
      exact absurd old used
    | some k =>
      rw [here] at old
      exact new k old
  · rw [update_of_ne same]
    exact fits x

theorem Agrees.push (agrees : Agrees s places lists) (made : dispqPush s w c = some s') : Good s' := by
  rw [dispqPush] at made
  split at made
  · cases made
  next t head =>
    cases made
    obtain ⟨place, apart, rest, first⟩ := agrees.held_first head rfl
    have chained := agrees.listed.chained.pop first none
    have listed : Listed ((s.setHead (.hand w) (s.next t)).setNext t none) (update lists (.hand w) rest) :=
      agrees.listed.other chained (fun c pri => update_of_ne (by simp) _ _) rfl rfl rfl rfl
    have member : Member (update places t .unused) (update lists (.hand w) rest) :=
      Member.out agrees.member (by rw [place]; rfl) rfl (mem_rest (agrees.listed.chained.once _) first)
    have off : (update places t .unused t).queue = none := by
      rw [update_self]
      rfl
    unfold dispqPushLocked
    generalize dispqClampPri _ = pri
    have there := member.append off (.disp c pri)
    rw [update_idem] at there
    refine ⟨_, _, agrees.relocate rfl rfl rfl (listed.push (member.absent off) c pri) there ?_ ?_⟩
    · exact Fits.move agrees.fits (by simp [place]) fun k ready => by rwa [place] at ready
    · exact update_within (P := (·.owner = .none)) (by rw [place]; rfl) rfl apart

theorem ready_wakeup (k : Kthread N) : (wakeup k).state = .ready := by
  rw [wakeup, Kthread.clWakeup]
  split
  · rfl
  · rfl

/-- The loop reaches every thread of the chain once. -/
theorem wakeLoop_path {start : Option (Fin N)}
    {fuel : Nat} (path : Links.Path next start l none) (once : l.Nodup) (enough : l.length < fuel)
    (threads : Fin N → Option (Kthread N)) :
    wakeLoop mark next fuel start threads = some fun t => if t ∈ l then (threads t).map mark else threads t := by
  induction l generalizing start fuel threads with
  | nil =>
    cases path
    cases fuel with
    | zero => cases enough
    | succ fuel => simp [wakeLoop]
  | cons t rest ih =>
    cases fuel with
    | zero => cases enough
    | succ fuel =>
      rw [List.nodup_cons] at once
      rw [path.1, wakeLoop, ih path.2 once.2 (by simpa using enough)]
      congr 1
      funext x
      by_cases same : x = t
      · subst same
        simp [once.1]
      · simp [same]

theorem Agrees.length (agrees : Agrees s places lists) (q : Queue n N) : (lists q).length < N + 1 := by
  have short := List.Nodup.length_le_card (agrees.listed.chained.once q)
  rw [Fintype.card_fin] at short
  omega

theorem Agrees.moveAll {q' : Queue n N} (agrees : Agrees s places lists)
    (free : ∀ l, q.lock = some l → s.held l = false) (empty : s.head q' = none) (other : q ≠ q')
    (plain : ∀ c pri, q ≠ .disp c pri ∧ q' ≠ .disp c pri) (stay : ∀ t, t ∉ lists q → threads t = s.threads t)
    (fits : ∀ t, t ∈ lists q → (Place.list q' : Place n N).Fits (threads t)) :
    Good { s with threads, head := update (update s.head q none) q' (s.head q) } := by
  have rests (t : Fin N) (inside : t ∈ lists q) := agrees.resting inside free
  have none := agrees.listed.empty empty
  refine ⟨fun t => if t ∈ lists q then .list q' else places t, _, agrees.relocate rfl rfl rfl
    (agrees.listed.other agrees.listed.chained.move ?_ rfl rfl rfl rfl) ?_ ?_ ?_⟩
  · intro c pri
    rw [update_of_ne (plain c pri).2.symm, update_of_ne (plain c pri).1.symm]
  · intro q'' t
    by_cases inside : t ∈ lists q
    · have outside (k : Queue n N) (differs : k ≠ q) : t ∉ lists k := fun there =>
        differs (agrees.listed.chained.apart k q t there inside)
      by_cases this : q'' = q'
      · subst this
        simp [inside, Place.queue]
      · rw [update_of_ne this]
        by_cases old : q'' = q
        · subst old
          simp [inside, Place.queue, Ne.symm this]
        · simp [inside, Place.queue, Ne.symm this, old, outside q'' old]
    · simp only [inside, if_false]
      rw [← agrees.member]
      by_cases this : q'' = q'
      · subst this
        simp [inside, none]
      · rw [update_of_ne this]
        by_cases old : q'' = q
        · subst old
          simp [inside]
        · rw [update_of_ne old]
  · intro t
    by_cases inside : t ∈ lists q
    · simpa only [inside, if_true] using fits t inside
    · simpa only [inside, if_false, stay t inside] using agrees.fits t
  · intro t
    by_cases inside : t ∈ lists q
    · obtain ⟨place, apart⟩ := rests t inside
      simp only [inside, place]
      exact .inr ⟨rfl, rfl, apart⟩
    · exact .inl (by simp only [inside, if_false])

theorem Agrees.wakeChain (agrees : Agrees s places lists) (free : s.held (.sq wq) = false)
    (empty : s.head (.hand w) = none) (ready : ∀ k, (mark k).state = .ready)
    (made : wakeChain s mark wq w = some s') : Good s' := by
  obtain ⟨threads, woken, rfl⟩ := Option.map_eq_some_iff.mp made
  rw [wakeLoop_path (agrees.listed.chained.path (.wait wq)) (agrees.listed.chained.once _) (agrees.length _)] at woken
  cases woken
  apply agrees.moveAll
  · intro l mine
    cases mine
    exact free
  · exact empty
  · simp
  · simp
  · exact fun t outside => by simp [outside]
  · intro t inside
    have fits := agrees.fits t
    rw [(agrees.resting inside fun l mine => by cases mine; exact free).1] at fits
    obtain ⟨k, here, _⟩ := fits_list fits
    simp only [inside, if_true, here]
    exact ready k

theorem enabled {a b : Bool} (can : ¬(a || !b) = true) : a = false ∧ b = true := by
  cases a <;> cases b <;> simp at can ⊢

section

variable (agrees : Agrees s places lists)
include agrees

theorem Agrees.wakeAll (made : kthreadWakeAll s wq w = some s') : Good s' := by
  obtain ⟨can, made⟩ := Option.ite_none_left_eq_some.mp made
  obtain ⟨free, empty⟩ := enabled can
  exact agrees.wakeChain free (by simpa [Sys.isFree] using empty) ready_wakeup made

theorem Agrees.wake {head : Option (Fin N)}
    (inside : t ∈ lists (.wait wq)) (free : s.held (.sq wq) = false) (empty : s.head (.hand w) = none)
    (chained : Links.Chained (update s.head (.wait wq) head) next (update lists (.wait wq) l))
    (ended : next t = none) (left : ∀ x, x ∈ l ↔ x ∈ lists (.wait wq) ∧ x ≠ t)
    (threads : s'.threads = update s.threads t ((s.threads t).map wakeup)) (links : s'.next = next)
    (heads : s'.head = update (update s.head (.wait wq) head) (.hand w) (some t)) (tail : s'.tail = s.tail)
    (map : s'.qactmap = s.qactmap) (cpu : s'.cpu = s.cpu) (held : s'.held = s.held) (context : s'.context = s.context) :
    Good s' := by
  obtain ⟨place, apart⟩ := agrees.resting inside fun l mine => by cases mine; exact free
  have member : Member (update places t .unused) (update lists (.wait wq) l) :=
    Member.out agrees.member (by rw [place]; rfl) rfl left
  have off : (update places t .unused t).queue = none := by
    rw [update_self]
    rfl
  have none : update lists (.wait wq) l (.hand w) = [] := by
    exact agrees.listed.empty empty
  have pushed := chained.push (.hand w) (member.absent off)
  rw [update_of_ne (by simp), empty, none, ← ended, update_eq_self] at pushed
  have there := member.append off (.hand w)
  rw [update_idem, none] at there
  refine ⟨_, _, agrees.relocate cpu held context (agrees.listed.other pushed ?_ heads links tail map) there ?_ ?_⟩
  · intro c pri
    rw [update_of_ne (by simp), update_of_ne (by simp)]
  · rw [threads]
    apply Fits.update agrees.fits
    have fits := agrees.fits t
    rw [place] at fits
    obtain ⟨k, here, _⟩ := fits_list fits
    rw [here]
    exact ready_wakeup k
  · exact update_within (P := (·.owner = .none)) (by rw [place]; rfl) rfl apart

theorem Agrees.wakeOne (made : kthreadWakeOne s wq w = some s') : Good s' := by
  obtain ⟨can, made⟩ := Option.ite_none_left_eq_some.mp made
  obtain ⟨free, empty⟩ := enabled can
  split at made
  · cases made
    exact ⟨places, lists, agrees⟩
  next t head =>
    cases made
    obtain ⟨rest, first, _⟩ := agrees.listed.first head
    exact agrees.wake (by simp [first]) free (by simpa [Sys.isFree] using empty) (agrees.listed.chained.pop first none)
      (by simp) (mem_rest (agrees.listed.chained.once _) first) rfl rfl rfl rfl rfl rfl rfl rfl

theorem Agrees.signal (made : kthreadSignal s t wq w = some s') : Good s' := by
  obtain ⟨can, made⟩ := Option.ite_none_left_eq_some.mp made
  obtain ⟨free, empty⟩ := enabled can
  split at made
  · cases made
  next k here =>
    split at made
    next blocked =>
      -- a blocked thread is on the queue it names, since no other place fits it
      have inside : t ∈ lists (.wait wq) := by
        have fits := agrees.fits t
        rw [here] at fits
        rw [agrees.member]
        exact fits_blocked fits blocked.1 blocked.2
      obtain ⟨before, after, split⟩ := List.append_of_mem inside
      obtain ⟨next, head, removed, chained, ended⟩ := agrees.listed.chained.unlink split (agrees.length _).le
      rw [removed] at made
      cases made
      have once := agrees.listed.chained.once (.wait wq)
      rw [split, List.nodup_middle] at once
      refine agrees.wake inside free (by simpa [Sys.isFree] using empty) chained ended ?_ rfl rfl rfl rfl rfl
        rfl rfl rfl
      intro x
      rw [mem_rest once rfl x, split]
      simp only [List.mem_cons, List.mem_append]
      tauto
    · cases made
      exact ⟨places, lists, agrees⟩

theorem Agrees.grab {r : Nat} (made : grabReap s r = some s') : Good s' := by
  obtain ⟨can, made⟩ := Option.ite_none_left_eq_some.mp made
  obtain ⟨free, empty⟩ := enabled can
  cases made
  have lock : ∀ l, (Queue.reap : Queue n N).lock = some l → s.held l = false := by
    intro l mine
    cases mine
    exact free
  apply agrees.moveAll lock
  · simpa [Sys.isFree] using empty
  · simp
  · simp
  · exact fun _ _ => rfl
  · intro t inside
    have fits := agrees.fits t
    rw [(agrees.resting inside lock).1] at fits
    obtain ⟨k, here, dead⟩ := fits_list fits
    change Place.Fits (s.threads t) _
    rw [here]
    exact dead

theorem Agrees.free {r : Nat} (made : freeThread s r = some s') : Good s' := by
  rw [freeThread] at made
  split at made
  · cases made
  next t head =>
    cases made
    obtain ⟨place, apart, rest, first⟩ := agrees.held_first head rfl
    have chained := agrees.listed.chained.pop first (s.next t)
    rw [update_eq_self] at chained
    refine ⟨update places t .unused, _, agrees.relocate rfl rfl rfl
      (agrees.listed.other chained (fun c pri => update_of_ne (by simp) _ _) rfl rfl rfl rfl) ?_ ?_ ?_⟩
    · exact Member.out agrees.member (by rw [place]; rfl) rfl (mem_rest (agrees.listed.chained.once _) first)
    · exact Fits.update agrees.fits rfl
    · exact update_within (P := (·.owner = .none)) (by rw [place]; rfl) rfl apart

end

end Kappara.Sched
