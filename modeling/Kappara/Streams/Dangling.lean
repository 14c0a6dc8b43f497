import Kappara.Streams.Topology

/-! Queue pointers over whole runs of opens, closes, pushes, pops and links.

A read side of a stream leads to its own head, to the pair above it, or, where a
link diverts it, into the driver of the upper stream; with that the pairs a pop or
a close frees are led to by no other stream. -/

set_option autoImplicit false

namespace Kappara.Topology

open Function (update update_cases update_of_ne update_self)
open List (mem_cons mem_cons_self nodup_cons)

variable {D' : Device} {fresh i : Nat} {up : Nat → Option Nat} {P : Pipe}

section Pointers

variable {s s' : State} {h n t m : Nat} {D : Device}

/-- A read side that a link diverts into the driver of the upper stream. -/
def Diverted (s : State) (n t : Nat) : Prop :=
  ∃ i M U, s.mux i = some M ∧ M.rewired = n ∧ s.devices M.upper = some U ∧ t = U.drv

/-- Where a read side of a stream leads: to its head, to the pair above, or where a link diverts it. -/
def Edge (s : State) (h : Nat) (D : Device) (n t : Nat) : Prop :=
  t = h ∨ [t, n] <:+: D.pairs h ∨ Diverted s n t

structure Inv (s : State) : Prop where
  nodup : ∀ h D, s.devices h = some D → (D.pairs h).Nodup
  apart : ∀ h D h' D' n, s.devices h = some D → s.devices h' = some D' → n ∈ D.pairs h → n ∈ D'.pairs h' → h = h'
  old : ∀ h D n, s.devices h = some D → n ∈ D.pairs h → n < s.fresh
  edge : ∀ h D n t, s.devices h = some D → n ∈ D.pairs h → s.up n = some t → Edge s h D n t
  mux : ∀ i M, s.mux i = some M → M.saved = M.lower ∧ ∃ D, s.devices M.lower = some D ∧ M.rewired ∈ D.pairs M.lower
  lowers : ∀ j i h, s.lowers j = some (i, h) → ∃ D, s.devices h = some D
  uppers : ∀ j entry, s.uppers j = some entry → Held s entry.rq
  pipe : ∀ i P, s.pipes i = some P → i < s.fresh ∧ P.openA = true ∧ P.openB = true
  runq : ∀ c q, q ∈ s.runq c → Live s q.1

theorem boot_inv : Inv boot where
  nodup _ _ eq := by cases eq
  apart _ _ _ _ _ eq := by cases eq
  old _ _ _ eq := by cases eq
  edge _ _ _ _ eq := by cases eq
  mux _ _ eq := by cases eq
  lowers _ _ _ eq := by cases eq
  uppers _ _ eq := by cases eq
  pipe _ _ eq := by cases eq
  runq _ _ member := by cases member

theorem Device.head_mem (D : Device) (h : Nat) : h ∈ D.pairs h := mem_cons_self

theorem Device.drv_mem (D : Device) (h : Nat) : D.drv ∈ D.pairs h := by simp [Device.pairs]

theorem Inv.target (inv : Inv s) (here : s.devices h = some D) (member : n ∈ D.pairs h) (leads : s.up n = some t) :
    Held s t := by
  rcases inv.edge h D n t here member leads with rfl | near | ⟨i, M, U, -, -, upper, rfl⟩
  · exact ⟨t, D, here, D.head_mem t⟩
  · exact ⟨h, D, here, near.subset mem_cons_self⟩
  · exact ⟨_, U, upper, U.drv_mem _⟩

theorem Inv.noDangling (inv : Inv s) : NoDangling s where
  next h D n t here member leads := .inl (inv.target here member leads)
  pipe i P found := by simp [inv.pipe i P found]
  mux i M found := by
    obtain ⟨saved, D, lower, member⟩ := inv.mux i M found
    exact ⟨.inl ⟨_, D, lower, member⟩, .inl ⟨_, D, lower, saved ▸ D.head_mem _⟩⟩
  lowers j i h found := by
    obtain ⟨D, here⟩ := inv.lowers j i h found
    exact .inl ⟨h, D, here, D.head_mem h⟩
  uppers j entry found := .inl (inv.uppers j entry found)
  runq := inv.runq

section

variable (here : s.devices h = some D)
include here

theorem Held.update (held : Held s n) (kept : n ∈ D.pairs h → n ∈ D'.pairs h) :
    Held { s with fresh, up, devices := update s.devices h (some D') } n := by
  obtain ⟨h', E, found, member⟩ := held
  by_cases same : h' = h
  · subst same
    cases here.symm.trans found
    exact ⟨h', D', update_self .., kept member⟩
  · exact ⟨h', E, (update_of_ne same ..).trans found, member⟩

theorem Live.update (live : Live s n) (kept : n ∈ D.pairs h → n ∈ D'.pairs h) :
    Live { s with fresh, up, devices := update s.devices h (some D') } n :=
  live.imp (fun held => held.update here kept) id

/-- The driver stays, so that a link leads where it led. -/
theorem Diverted.update (diverted : Diverted s n t) (drv : D'.drv = D.drv) :
    Diverted { s with fresh, up, devices := update s.devices h (some D') } n t := by
  obtain ⟨i, M, U, found, rewired, upper, rfl⟩ := diverted
  by_cases same : M.upper = h
  · rw [same] at upper
    cases here.symm.trans upper
    exact ⟨i, M, D', found, rewired, by rw [same]; exact update_self .., drv.symm⟩
  · exact ⟨i, M, U, found, rewired, (update_of_ne same ..).trans upper, rfl⟩

/-- A stream gets other modules: new ones have new numbers, and those that go are in no table. -/
theorem Inv.reshape (inv : Inv s) (D' : Device) (drv : D'.drv = D.drv) (nodup : (D'.pairs h).Nodup)
    (later : s.fresh ≤ fresh) (new : ∀ n ∈ D'.pairs h, n ∈ D.pairs h ∨ (s.fresh ≤ n ∧ n < fresh))
    (kept : ∀ n ∈ D.pairs h, n ∈ D'.pairs h ∨ Unused s n) (others : ∀ n, n ∉ D.pairs h → n ∉ D'.pairs h → up n = s.up n)
    (edge : ∀ n t, n ∈ D'.pairs h → up n = some t → t = h ∨ [t, n] <:+: D'.pairs h ∨ Diverted s n t) :
    Inv { s with fresh, up, devices := update s.devices h (some D') } := by
  -- A stream of the new state: the changed one, or another, whose pairs are not those of this one.
  have stream : ∀ h' E, update s.devices h (some D') h' = some E → (h' = h ∧ E = D') ∨
      (h' ≠ h ∧ s.devices h' = some E ∧ ∀ n ∈ E.pairs h', n < s.fresh ∧ n ∉ D.pairs h ∧ n ∉ D'.pairs h) := by
    intro h' E found
    rcases update_cases found with ⟨same, eq⟩ | ⟨same, found⟩
    · exact .inl ⟨same, (Option.some.inj eq).symm⟩
    · refine .inr ⟨same, found, fun n member => ?_⟩
      have low := inv.old h' E n found member
      have away : n ∉ D.pairs h := fun mine => same (inv.apart _ _ _ _ _ found here member mine)
      exact ⟨low, away, fun mine => (new n mine).elim away fun fresh => by omega⟩
  exact {
    nodup := fun h' E found => by
      rcases stream h' E found with ⟨rfl, rfl⟩ | ⟨-, found, -⟩
      · exact nodup
      · exact inv.nodup h' E found
    apart := fun h₁ E₁ h₂ E₂ n first second mine other => by
      rcases stream h₁ E₁ first with ⟨rfl, rfl⟩ | ⟨-, first, away⟩ <;>
        rcases stream h₂ E₂ second with ⟨rfl, rfl⟩ | ⟨-, second, away'⟩
      · rfl
      · exact absurd mine (away' n other).2.2
      · exact absurd other (away n mine).2.2
      · exact inv.apart _ _ _ _ n first second mine other
    old := fun h' E n found member => by
      rcases stream h' E found with ⟨rfl, rfl⟩ | ⟨-, found, -⟩
      · rcases new n member with old | fresh
        · exact (inv.old _ _ n here old).trans_le later
        · exact fresh.2
      · exact (inv.old _ _ n found member).trans_le later
    edge := fun h' E n t found member leads => by
      rcases stream h' E found with ⟨rfl, rfl⟩ | ⟨-, found, away⟩
      · exact (edge n t member leads).imp_right (Or.imp_right fun diverted => diverted.update here drv)
      · have same := others n (away n member).2.1 (away n member).2.2
        exact (inv.edge h' E n t found member (same.symm.trans leads)).imp_right
          (Or.imp_right fun diverted => diverted.update here drv)
    mux := fun i M found => by
      obtain ⟨saved, E, lower, member⟩ := inv.mux i M found
      refine ⟨saved, ?_⟩
      by_cases same : M.lower = h
      · rw [same] at lower member ⊢
        cases here.symm.trans lower
        refine ⟨D', update_self .., (kept _ member).resolve_right fun unused => unused.1 i M found rfl⟩
      · exact ⟨E, (update_of_ne same ..).trans lower, member⟩
    lowers := fun j i h' found => by
      obtain ⟨E, lower⟩ := inv.lowers j i h' found
      by_cases same : h' = h
      · exact ⟨D', by rw [same]; exact update_self ..⟩
      · exact ⟨E, (update_of_ne same ..).trans lower⟩
    uppers := fun j entry found => (inv.uppers j entry found).update here fun member =>
      (kept _ member).resolve_right fun unused => unused.2.1 j entry found rfl
    pipe := fun i P found => ⟨(inv.pipe i P found).1.trans_le later, (inv.pipe i P found).2⟩
    runq := fun c q member => (inv.runq c q member).update here fun mine =>
      (kept _ mine).resolve_right fun unused => unused.2.2 c q member rfl }

theorem Inv.refs (inv : Inv s) (refs : Nat) : Inv { s with devices := update s.devices h (some { D with refs }) } :=
  inv.reshape here _ rfl (inv.nodup h D here) le_rfl (fun _ member => .inl member) (fun _ member => .inl member)
    (fun _ _ _ => rfl) fun n t member leads => inv.edge h D n t here member leads

end

theorem Device.pairs_top (D : Device) (h : Nat) : ∃ rest, D.pairs h = h :: D.top :: rest := by
  cases mods : D.mods with
  | nil => exact ⟨[], by simp [Device.pairs, Device.top, mods]⟩
  | cons m rest => exact ⟨rest ++ [D.drv], by simp [Device.pairs, Device.top, mods]⟩

/-- A pair between a head and the pair below it is a neighbour of these two only. -/
theorem near_insert {x : Nat} {rest : List Nat} (isM : n ≠ m) (isX : n ≠ x) :
    [t, n] <:+: h :: m :: x :: rest ↔ [t, n] <:+: h :: x :: rest := by
  simp [List.infix_cons_iff, isM, isX]

section

variable (inv : Inv s)
include inv

theorem Inv.push (here : s.devices h = some D) : Inv (doIpush s h D) := by
  obtain ⟨rest, pairs⟩ := D.pairs_top h
  have more : ({ D with mods := s.fresh :: D.mods } : Device).pairs h = h :: s.fresh :: D.top :: rest := by
    rw [← (List.cons.inj pairs).2]
    rfl
  have nodup := inv.nodup h D here
  have outside : s.fresh ∉ D.pairs h := fun member => (inv.old h D _ here member).false
  have same (n : Nat) (isM : n ≠ s.fresh) :
      n ∈ ({ D with mods := s.fresh :: D.mods } : Device).pairs h ↔ n ∈ D.pairs h := by
    simp [more, pairs, isM]
  refine inv.reshape here { D with mods := s.fresh :: D.mods } rfl ?_ (Nat.le_succ _) ?_ ?_ ?_ ?_
  · rw [more]
    rw [pairs] at nodup outside
    simp only [nodup_cons, mem_cons, not_or] at nodup outside ⊢
    exact ⟨⟨Ne.symm outside.1, nodup.1⟩, outside.2, nodup.2⟩
  · intro n member
    by_cases isM : n = s.fresh
    · exact .inr ⟨isM.ge, isM ▸ Nat.lt_succ_self _⟩
    · exact .inl ((same n isM).mp member)
  · exact fun n member => .inl ((same n fun isM => outside (isM ▸ member)).mpr member)
  · intro n away away'
    have notM : n ≠ s.fresh := fun eq => away' (by simp [more, eq])
    have notT : n ≠ D.top := fun eq => away (by simp [pairs, eq])
    rw [update_of_ne notM, update_of_ne notT]
  · intro n t member leads
    rcases update_cases leads with ⟨-, ⟨⟩⟩ | ⟨isM, leads⟩
    · exact .inl rfl
    rcases update_cases leads with ⟨isT, ⟨⟩⟩ | ⟨isT, leads⟩
    · rw [more, isT]
      exact .inr (.inl ⟨[h], rest, rfl⟩)
    refine (inv.edge h D n t here ((same n isM).mp member) leads).imp_right (Or.imp_left fun near => ?_)
    rw [pairs] at near
    rw [more]
    exact (near_insert isM isT).mpr near

theorem Inv.pop (here : s.devices h = some D) (unused : ∀ m ∈ D.mods.head?, Unused s m) : Inv (doIpop s h D) := by
  cases mods : D.mods with
  | nil =>
    have eq : doIpop s h D = s := by rw [doIpop, mods]
    rwa [eq]
  | cons m tail =>
    have eq : doIpop s h D = { s with
        devices := update s.devices h (some { D with mods := tail })
        up := update s.up ({ D with mods := tail } : Device).top (some h) } := by rw [doIpop, mods]
    rw [eq]
    obtain ⟨rest, pairs'⟩ := ({ D with mods := tail } : Device).pairs_top h
    generalize ({ D with mods := tail } : Device).top = x at pairs'
    have pairs : D.pairs h = h :: m :: x :: rest := by
      have rest' := (List.cons.inj pairs').2
      show h :: (D.mods ++ [D.drv]) = _
      rw [mods, List.cons_append, ← rest']
    have nodup := inv.nodup h D here
    rw [pairs] at nodup
    have outside : m ∉ h :: x :: rest := by
      simp only [nodup_cons, mem_cons, not_or] at nodup ⊢
      exact ⟨Ne.symm nodup.1.1, nodup.2.1⟩
    have same (n : Nat) (isM : n ≠ m) : n ∈ ({ D with mods := tail } : Device).pairs h ↔ n ∈ D.pairs h := by
      simp [pairs', pairs, isM]
    refine inv.reshape here { D with mods := tail } rfl ?_ le_rfl ?_ ?_ ?_ ?_
    · rw [pairs']
      simp only [nodup_cons, mem_cons, not_or] at nodup ⊢
      exact ⟨nodup.1.2, nodup.2.2⟩
    · exact fun n member => .inl ((same n fun isM => outside (isM ▸ pairs' ▸ member)).mp member)
    · intro n member
      by_cases isM : n = m
      · exact .inr (unused n (by rw [mods, isM]; rfl))
      · exact .inl ((same n isM).mpr member)
    · intro n away _
      exact update_of_ne (fun eq => away (by simp [pairs, eq])) ..
    · intro n t member leads
      rcases update_cases leads with ⟨-, ⟨⟩⟩ | ⟨isX, leads⟩
      · exact .inl rfl
      have isM : n ≠ m := fun isM => outside (isM ▸ pairs' ▸ member)
      refine (inv.edge h D n t here ((same n isM).mp member) leads).imp_right (Or.imp_left fun near => ?_)
      rw [pairs] at near
      rw [pairs']
      exact (near_insert isM isX).mp near

theorem Inv.open_ (ip : Bool) : Inv (streamBuild s ip) := by
  have wired : (streamBuild s ip).up =
      update (update s.up s.fresh none) (s.fresh + 1) (some s.fresh) := rfl
  have low : ∀ h D n, s.devices h = some D → n ∈ D.pairs h → n < s.fresh := inv.old
  have unknown : s.devices s.fresh = none := by
    cases found : s.devices s.fresh with
    | none => rfl
    | some D => exact absurd (low _ D _ found (D.head_mem _)) (Nat.lt_irrefl _)
  have kept : ∀ h D, s.devices h = some D → (streamBuild s ip).devices h = some D := fun h D found =>
    (update_of_ne (fun eq => by rw [eq, unknown] at found; cases found) ..).trans found
  have stream : ∀ h D, (streamBuild s ip).devices h = some D →
      (h = s.fresh ∧ D = ⟨[], s.fresh + 1, ip, 1⟩) ∨ s.devices h = some D := by
    intro h D found
    exact (update_cases found).imp (fun new => ⟨new.1, (Option.some.inj new.2).symm⟩) And.right
  have held : ∀ n, Held s n → Held (streamBuild s ip) n := fun n ⟨h, D, found, member⟩ => ⟨h, D, kept h D found, member⟩
  have ends : ∀ n, n ∈ (⟨[], s.fresh + 1, ip, 1⟩ : Device).pairs s.fresh ↔ n = s.fresh ∨ n = s.fresh + 1 := by
    simp [Device.pairs]
  exact {
    nodup := fun h D found => by
      rcases stream h D found with ⟨rfl, rfl⟩ | found
      · simp [Device.pairs]
      · exact inv.nodup h D found
    apart := fun h₁ D₁ h₂ D₂ n first second mine other => by
      rcases stream h₁ D₁ first with ⟨rfl, rfl⟩ | first <;> rcases stream h₂ D₂ second with ⟨rfl, rfl⟩ | second
      · rfl
      · have := low _ _ _ second other
        have := (ends n).mp mine
        omega
      · have := low _ _ _ first mine
        have := (ends n).mp other
        omega
      · exact inv.apart _ _ _ _ n first second mine other
    old := fun h D n found member => by
      show n < s.fresh + 2
      rcases stream h D found with ⟨rfl, rfl⟩ | found
      · have := (ends n).mp member
        omega
      · have := low h D n found member
        omega
    edge := fun h D n t found member leads => by
      rcases stream h D found with ⟨rfl, rfl⟩ | found
      · rcases (ends n).mp member with rfl | rfl
        · rw [wired, update_of_ne (Nat.lt_succ_self _).ne, update_self] at leads
          cases leads
        · rw [wired, update_self] at leads
          exact .inl (Option.some.inj leads).symm
      · have below := low h D n found member
        rw [wired, update_of_ne (by omega), update_of_ne (by omega)] at leads
        refine (inv.edge h D n t found member leads).imp_right (Or.imp_right ?_)
        rintro ⟨i, M, U, entry, rewired, upper, rfl⟩
        exact ⟨i, M, U, entry, rewired, kept _ _ upper, rfl⟩
    mux := fun i M found => by
      obtain ⟨saved, D, lower, member⟩ := inv.mux i M found
      exact ⟨saved, D, kept _ _ lower, member⟩
    lowers := fun j i h found => by
      obtain ⟨D, lower⟩ := inv.lowers j i h found
      exact ⟨D, kept _ _ lower⟩
    uppers := fun j entry found => held _ (inv.uppers j entry found)
    pipe := fun i P found => ⟨Nat.lt_add_right 2 (inv.pipe i P found).1, (inv.pipe i P found).2⟩
    runq := fun c q member => (inv.runq c q member).imp (held _) id }

/-- A stream goes that nothing else leads to. -/
theorem Inv.last (here : s.devices h = some D) (alone : Alone s h D) :
    Inv { s with devices := update s.devices h none } := by
  obtain ⟨links, lowers, unused⟩ := alone
  have stream : ∀ h' E, update s.devices h none h' = some E → h' ≠ h ∧ s.devices h' = some E := by
    intro h' E found
    exact (update_cases found).resolve_left fun gone => by cases gone.2
  have held : ∀ n, Held s n → n ∉ D.pairs h → Held { s with devices := update s.devices h none } n := by
    rintro n ⟨h', E, found, member⟩ away
    have other : h' ≠ h := fun same => away (by subst same; cases here.symm.trans found; exact member)
    exact ⟨h', E, (update_of_ne other ..).trans found, member⟩
  exact {
    nodup := fun h' E found => inv.nodup h' E (stream h' E found).2
    apart := fun h₁ E₁ h₂ E₂ n first second => inv.apart _ _ _ _ n (stream _ _ first).2 (stream _ _ second).2
    old := fun h' E n found => inv.old h' E n (stream h' E found).2
    edge := fun h' E n t found member leads => by
      refine (inv.edge h' E n t (stream h' E found).2 member leads).imp_right (Or.imp_right ?_)
      rintro ⟨i, M, U, entry, rewired, upper, rfl⟩
      have other : M.upper ≠ h := fun same => by
        rw [same] at upper
        cases here.symm.trans upper
        exact (links i M entry).2 same (by rw [rewired]; exact leads)
      exact ⟨i, M, U, entry, rewired, (update_of_ne other ..).trans upper, rfl⟩
    mux := fun i M entry => by
      obtain ⟨saved, E, lower, member⟩ := inv.mux i M entry
      exact ⟨saved, E, (update_of_ne (links i M entry).1 ..).trans lower, member⟩
    lowers := fun j i h' entry => by
      obtain ⟨E, lower⟩ := inv.lowers j i h' entry
      exact ⟨E, (update_of_ne (lowers j _ entry) ..).trans lower⟩
    uppers := fun j entry found => held _ (inv.uppers j entry found) fun mine => (unused _ mine).2.1 j entry found rfl
    pipe := inv.pipe
    runq := fun c q member => (inv.runq c q member).imp_left fun here =>
      held _ here fun mine => (unused _ mine).2.2 c q member rfl }

/-- The queue lower_top_rq finds points at the head, so it is one of the stream's. -/
theorem Inv.lowerTopRq {l : Nat} {L : Device} (lower : s.devices l = some L) {fuel q : Nat} (start : Held s q)
    (found : Topology.lowerTopRq s.up l fuel q = some (some n)) : n ∈ L.pairs l := by
  induction fuel generalizing q with
  | zero => cases found
  | succ fuel ih =>
    obtain ⟨h, D, here, member⟩ := start
    rw [Topology.lowerTopRq] at found
    cases leads : s.up q with
    | none => rw [leads] at found; cases found
    | some t =>
      rw [leads] at found
      by_cases top : t = l
      · simp only [top, if_true, Option.some.injEq] at found
        subst found top
        have mine : t ∈ D.pairs h := by
          rcases inv.edge h D q t here member leads with eq | near | ⟨i, M, U, -, -, upper, eq⟩
          · exact eq ▸ D.head_mem _
          · exact near.subset mem_cons_self
          · -- A driver is not a head.
            have drv := U.drv_mem M.upper
            rw [← eq] at drv
            have same := inv.apart _ _ _ _ t upper lower drv (L.head_mem t)
            subst same
            have nodup := inv.nodup _ U upper
            exact absurd (eq ▸ List.mem_append_right _ mem_cons_self) (List.nodup_cons.mp nodup).1
        have same := inv.apart _ _ _ _ t here lower mine (L.head_mem t)
        subst same
        cases here.symm.trans lower
        exact member
      · simp only [top] at found
        exact ih (inv.target here member leads) found

theorem Inv.link {u l : Nat} {U L : Device} (upper : s.devices u = some U) (lower : s.devices l = some L)
    (made : streamIlink s u U l L = some s') : Inv s' := by
  unfold streamIlink at made
  split at made
  · cases made
    exact inv
  next i slot =>
    have free : s.mux i = none := Option.isNone_iff_eq_none.mp (List.find?_some (p := fun i => (s.mux i).isNone) slot)
    split at made
    · cases made
      exact inv
    next j _ =>
      have noted : Inv { s with lowers := update s.lowers j (some (i, l)) } :=
        { inv with
          lowers := fun j' i' h found => by
            rcases update_cases found with ⟨-, ⟨⟩⟩ | ⟨-, found⟩
            · exact ⟨L, lower⟩
            · exact inv.lowers j' i' h found }
      dsimp only at made
      split at made
      · cases made
      · cases made
        exact noted
      next q walk =>
        cases made
        have mine := inv.lowerTopRq lower ⟨l, L, lower, L.drv_mem l⟩ walk
        exact { noted with
          edge := fun h D n t here member leads => by
            rcases update_cases leads with ⟨isQ, ⟨⟩⟩ | ⟨-, leads⟩
            · exact .inr (.inr ⟨i, _, U, update_self .., isQ.symm, upper, rfl⟩)
            · refine (inv.edge h D n t here member leads).imp_right (Or.imp_right ?_)
              rintro ⟨i', M, V, entry, rewired, upper', rfl⟩
              have other : i' ≠ i := fun same => by rw [same, free] at entry; cases entry
              exact ⟨i', M, V, (update_of_ne other ..).trans entry, rewired, upper', rfl⟩
          mux := fun i' M found => by
            rcases update_cases found with ⟨-, ⟨⟩⟩ | ⟨-, found⟩
            · exact ⟨rfl, L, lower, mine⟩
            · exact inv.mux i' M found }

theorem Inv.unlink {i : Fin 16} {M : Muxlink} (entry : s.mux i = some M) : Inv (streamIunlink s i M) := by
  obtain ⟨saved, L, lower, mine⟩ := inv.mux i M entry
  rw [streamIunlink]
  split
  · exact inv
  next j _ =>
    exact { inv with
      edge := fun h D n t here member leads => by
        rcases update_cases leads with ⟨isQ, eq⟩ | ⟨isQ, leads⟩
        · -- The pair is the lower stream's own, and leads to its head again.
          cases eq
          rw [isQ] at member
          have same := inv.apart _ _ _ _ _ here lower member mine
          exact .inl (saved.trans same.symm)
        · refine (inv.edge h D n t here member leads).imp_right (Or.imp_right ?_)
          rintro ⟨i', M', U, found, rewired, upper, rfl⟩
          have other : i' ≠ i := fun same => by
            rw [same, entry] at found
            cases found
            exact isQ rewired.symm
          exact ⟨i', M', U, (update_of_ne other ..).trans found, rewired, upper, rfl⟩
      mux := fun i' M' found =>
        inv.mux i' M' ((update_cases found).resolve_left fun gone => by cases gone.2).2
      lowers := fun j' i' h found =>
        inv.lowers j' i' h ((update_cases found).resolve_left fun gone => by cases gone.2).2 }

theorem Inv.bind {entry : Upper} (held : Held s entry.rq) : Inv (ipBind s entry) := by
  rw [ipBind]
  split
  · exact inv
  · split
    · exact inv
    next j _ =>
      exact { inv with
        uppers := fun j' entry' found => by
          rcases update_cases found with ⟨-, eq⟩ | ⟨-, found⟩
          · cases eq
            exact held
          · exact inv.uppers j' entry' found }

theorem Inv.unbind (entry : Upper) : Inv (ipUnbind s entry) := by
  rw [ipUnbind]
  split
  · exact inv
  next j _ =>
    exact { inv with
      uppers := fun j' entry' found =>
        inv.uppers j' entry' ((update_cases found).resolve_left fun gone => by cases gone.2).2 }

theorem Inv.enable (c : Fin 4) {q : Nat × Bool} (live : Live s q.1) : Inv (qenable s c q) := by
  rw [qenable]
  split
  · exact inv
  · refine { inv with runq := fun c' q' (member : q' ∈ update s.runq c (s.runq c ++ [q]) c') => ?_ }
    by_cases same : c' = c
    · rw [same, update_self] at member
      rcases List.mem_append.mp member with old | new
      · exact inv.runq c q' old
      · exact List.mem_singleton.mp new ▸ live
    · rw [update_of_ne same] at member
      exact inv.runq c' q' member

theorem Inv.run (c : Fin 4) : Inv (streamsRun s c) := by
  refine { inv with runq := fun c' q' (member : q' ∈ update s.runq c (s.runq c).tail c') => ?_ }
  by_cases same : c' = c
  · rw [same, update_self] at member
    exact inv.runq c q' (List.mem_of_mem_tail member)
  · rw [update_of_ne same] at member
    exact inv.runq c' q' member

/-- A pipe gets other modules; those that go are on no run queue. -/
theorem Inv.repipe (later : s.fresh ≤ fresh) (low : i < fresh) (both : P.openA = true ∧ P.openB = true)
    (kept : ∀ Q, s.pipes i = some Q → ∀ n ∈ Q.pairs, n ∈ P.pairs ∨ Unused s n) :
    Inv { s with fresh, pipes := update s.pipes i (some P) } :=
  { inv with
    old := fun h D n here member => (inv.old h D n here member).trans_le later
    pipe := fun i' Q found => by
      rcases update_cases found with ⟨rfl, eq⟩ | ⟨-, found⟩
      · cases eq
        exact ⟨low, both⟩
      · exact ⟨(inv.pipe i' Q found).1.trans_le later, (inv.pipe i' Q found).2⟩
    runq := fun c q member => by
      rcases inv.runq c q member with held | ⟨i', Q, found, mine⟩
      · exact .inl held
      · by_cases same : i' = i
        · subst same
          refine .inr ⟨i', P, update_self .., (kept Q found _ mine).resolve_right fun unused => ?_⟩
          exact unused.2.2 c q member rfl
        · exact .inr ⟨i', Q, (update_of_ne same ..).trans found, mine⟩ }

end

theorem Pipe.mem_pairs (both : P.openA = true ∧ P.openB = true) : n ∈ P.pairs ↔ n = P.a ∨ n ∈ P.mods ∨ n = P.b := by
  simp [Pipe.pairs, both.1, both.2]

/-- What a pop takes is the only module that goes. -/
theorem Pipe.popped_mem {fromA : Bool} {mods : List Nat} (popped : P.popped fromA = some (m, mods)) :
    ∀ n ∈ P.mods, n ∈ mods ∨ n = m := by
  intro n member
  cases fromA with
  | true =>
    obtain ⟨x, first, eq⟩ := Option.map_eq_some_iff.mp popped
    cases eq
    cases list : P.mods with
    | nil => rw [list] at member; cases member
    | cons y rest =>
      rw [list] at member first
      cases first
      exact (List.mem_cons.mp member).symm
  | false =>
    obtain ⟨x, last, eq⟩ := Option.map_eq_some_iff.mp popped
    cases eq
    rw [← List.dropLast_append_getLast? m last] at member
    simpa using member

theorem Inv.pipePush (inv : Inv s) (here : s.pipes i = some P) (fromA : Bool) :
    Inv (Topology.pipePush s i P fromA) := by
  obtain ⟨low, both⟩ := inv.pipe i P here
  refine inv.repipe (Nat.le_succ _) (low.trans (Nat.lt_succ_self _)) both fun Q found n member => .inl ?_
  cases here.symm.trans found
  rw [Pipe.mem_pairs both] at member
  have more : n ∈ P.mods → n ∈ if fromA then s.fresh :: P.mods else P.mods ++ [s.fresh] := fun old => by
    cases fromA <;> simp [old]
  generalize (if fromA then s.fresh :: P.mods else P.mods ++ [s.fresh]) = mods at more
  exact (Pipe.mem_pairs (P := { P with mods }) both).mpr (member.imp_right (Or.imp_left more))

theorem Inv.pipePop (inv : Inv s) (here : s.pipes i = some P) (fromA : Bool)
    (unused : ∀ m ∈ P.popped fromA, Unused s m.1) : Inv (Topology.pipePop s i P fromA) := by
  obtain ⟨low, both⟩ := inv.pipe i P here
  cases popped : P.popped fromA with
  | none =>
    have eq : Topology.pipePop s i P fromA = s := by rw [Topology.pipePop, popped]
    rwa [eq]
  | some taken =>
    obtain ⟨m, mods⟩ := taken
    have eq : Topology.pipePop s i P fromA = { s with pipes := update s.pipes i (some { P with mods }) } := by
      rw [Topology.pipePop, popped]
    rw [eq]
    refine inv.repipe le_rfl low both fun Q found n member => ?_
    cases here.symm.trans found
    rw [Pipe.mem_pairs (P := { P with mods }) both]
    rcases (Pipe.mem_pairs both).mp member with isA | old | isB
    · exact .inl (.inl isA)
    · rcases P.popped_mem popped n old with left | gone
      · exact .inl (.inr (.inl left))
      · exact .inr (gone ▸ unused (m, mods) popped)
    · exact .inl (.inr (.inr isB))

theorem Inv.pipe_ (inv : Inv s) : Inv (sysPipe s) :=
  inv.repipe (Nat.le_add_right _ _) (Nat.lt_add_of_pos_right Nat.two_pos) ⟨rfl, rfl⟩ fun Q found =>
    absurd (inv.pipe _ Q found).1 (Nat.lt_irrefl _)

theorem Inv.step {op : Op} (inv : Inv s) (careful : Careful s op) (made : step s op = some s') : Inv s' := by
  -- Each call is on an open stream; the goal is then one of the lemmas above.
  have device : ∀ {h : Nat} {f : Device → Option State}, s.onDevice h f = some s' →
      ∃ D, s.devices h = some D ∧ f D = some s' := fun made => Option.bind_eq_some_iff.mp made
  have pipe : ∀ {i : Nat} {f : Pipe → Option State}, s.onPipe i f = some s' → ∃ P, s.pipes i = some P ∧ f P = some s' :=
    fun made => Option.bind_eq_some_iff.mp made
  cases op with
  | open_ ip =>
    cases made
    exact inv.open_ ip
  | share h =>
    obtain ⟨D, here, made⟩ := device made
    cases made
    exact inv.refs here _
  | close h =>
    obtain ⟨D, here, made⟩ := device made
    cases made
    rw [streamClose]
    split
    · exact inv.refs here _
    next last => exact inv.last here (careful D here (Nat.le_of_not_lt last))
  | push h =>
    obtain ⟨D, here, made⟩ := device made
    cases made
    exact inv.push here
  | pop h =>
    obtain ⟨D, here, made⟩ := device made
    cases made
    exact inv.pop here (careful D here)
  | link u l answered =>
    obtain ⟨U, upper, made⟩ := device made
    obtain ⟨L, lower, made⟩ := device made
    split at made
    · exact inv.link upper lower made
    · cases made
      exact inv
  | unlink u i answered =>
    obtain ⟨U, upper, made⟩ := device made
    split at made
    · cases made
      exact inv
    next M entry =>
      split at made
      · cases made
        exact inv.unlink entry
      · cases made
        exact inv
  | bind h proto key =>
    obtain ⟨D, here, made⟩ := device made
    split at made
    · cases made
      exact inv
    next rq leads =>
      cases made
      split
      · exact inv.bind (inv.target here (D.drv_mem h) leads)
      · exact inv
  | unbind h proto key =>
    obtain ⟨D, here, made⟩ := device made
    split at made
    · cases made
      exact inv
    · cases made
      split
      · exact inv.unbind _
      · exact inv
  | enable c h q =>
    obtain ⟨D, here, made⟩ := device made
    obtain ⟨mine, ⟨⟩⟩ := Option.ite_none_right_eq_some.mp made
    exact inv.enable c (.inl ⟨h, D, here, mine⟩)
  | pipe =>
    cases made
    exact inv.pipe_
  | pipePush i fromA =>
    obtain ⟨P, here, made⟩ := pipe made
    cases made
    exact inv.pipePush here fromA
  | pipePop i fromA =>
    obtain ⟨P, here, made⟩ := pipe made
    cases made
    exact inv.pipePop here fromA (careful P here)
  | pipeClose i fromA =>
    -- Both ends are open, so neither is closed.
    obtain ⟨P, here, -⟩ := pipe made
    have both := (inv.pipe i P here).2
    have shut := careful P here
    rw [both.1, both.2, ite_self] at shut
    cases shut
  | pipeEnable c i q =>
    obtain ⟨P, here, made⟩ := pipe made
    obtain ⟨mine, ⟨⟩⟩ := Option.ite_none_right_eq_some.mp made
    exact inv.enable c (.inr ⟨i, P, here, mine⟩)
  | run c =>
    cases made
    exact inv.run c

/-- In every run of careful steps no queue pointer leads to a freed pair. -/
theorem careful_no_dangling (s : State) (reached : Run.Reach step Careful Booted s) : NoDangling s := by
  have first : ∀ s, Booted s → Inv s := fun s booted => by
    cases booted
    exact boot_inv
  have inv : Inv s := reached.invariant first fun _ _ _ inv careful made => inv.step careful made
  exact inv.noDangling

end Pointers

instance (s : State) (m : Nat) : Decidable (Unused s m) := inferInstanceAs (Decidable (_ ∧ _ ∧ _))

instance (s : State) (h : Nat) (D : Device) : Decidable (Alone s h D) := inferInstanceAs (Decidable (_ ∧ _ ∧ _))

instance (s : State) (op : Op) : Decidable (Careful s op) :=
  match op with
  | .pop h => inferInstanceAs (Decidable (∀ D ∈ s.devices h, ∀ m ∈ D.mods.head?, Unused s m))
  | .close h => inferInstanceAs (Decidable (∀ D ∈ s.devices h, D.refs ≤ 1 → Alone s h D))
  | .pipePop i fromA => inferInstanceAs (Decidable (∀ P ∈ s.pipes i, ∀ m ∈ P.popped fromA, Unused s m.1))
  | .pipeClose i fromA =>
    inferInstanceAs (Decidable (∀ P ∈ s.pipes i, (if fromA then P.openB else P.openA) = false))
  | .open_ _ | .share _ | .push _ | .link _ _ _ | .unlink _ _ _ | .bind _ _ _ | .unbind _ _ _ | .enable _ _ _ | .pipe
  | .pipePush _ _ | .pipeEnable _ _ _ | .run _ => inferInstanceAs (Decidable True)

/-- A lower stream with a module is linked under ip and unlinked, popped and closed; ip binds and unbinds. -/
theorem careful_no_dangling_run : ∃ s, Run.Reach step Careful Booted s ∧
    ((s.devices 0).isSome && (s.devices 2).isNone) = true ∧ NoDangling s := by
  apply Run.Reach.found_with careful_no_dangling [.open_ true, .open_ false, .push 2, .bind 0 1 0, .link 0 2 true,
    .enable 0 2 (4, true), .run 0, .unlink 0 0 true, .unbind 0 1 0, .pop 2, .close 2, .pipe, .pipePush 5 true,
      .pipePop 5 true] rfl
  decide +kernel

/-- One end of a pipe is closed: the write side of the other leads to a freed queue. -/
theorem pipe_close_dangles : ∃ s, Run.Reach step (fun _ _ => True) Booted s ∧ ¬ NoDangling s := by
  have opened : Run.Reach step (fun _ _ => True) Booted (sysPipe boot) := .next (a := .pipe) (.start rfl) trivial rfl
  refine ⟨_, .next (a := .pipeClose 0 true) opened trivial rfl, fun safe => ?_⟩
  have other := (safe.pipe 0 ⟨0, 1, [], false, true⟩ rfl).1 (.inl rfl)
  cases other

end Kappara.Topology
