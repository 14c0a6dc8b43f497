import Kappara.Net.Transmit

/-! Which sends keep the transmit pages and slots with one owner.

ENA: as long as a send finds its place in tx_bufs empty, every page not freed is
in the table, under the slot of a descriptor that the device has or of a completion
that the driver has not read yet. virtio-net frees no page at all, so only runs in
which none is due to be freed are left. -/

set_option autoImplicit false

namespace Kappara.Transmit

open PhaseRing
open Function (update update_apart update_cases update_of_ne update_self)

theorem txDesc_reqId (len : Nat) {rid : BitVec 16} (small : rid.toNat < 2048) (phase : Bool) (page : Nat) :
    (txDesc len rid phase page).reqId = rid := by
  have high (i : Nat) (above : 11 ≤ i) : rid.getLsbD i = false :=
    Nat.testBit_lt_two_pow (small.trans_le (Nat.pow_le_pow_right (by decide : 0 < 2) above))
  apply BitVec.eq_of_getLsbD_eq
  intro i bound
  -- the bits below 11 come back from the control words, the others are clear
  interval_cases i <;> cases phase <;> simp [txDesc, TxDesc.reqId]
  all_goals exact high _ (by decide)

/-! ## The record of the pages -/

section
variable {a : Audit} {bufs : Nat → Option Nat} {slots owners : List Nat} {slot k : Nat}

structure Listed (bufs : Nat → Option Nat) (slots : List Nat) : Prop where
  nodup : slots.Nodup
  mem_iff : ∀ i, bufs i ≠ none ↔ i ∈ slots

theorem Listed.perm {slots' : List Nat} (listed : Listed bufs slots) (same : slots.Perm slots') : Listed bufs slots' :=
  ⟨same.nodup_iff.mp listed.nodup, fun i => (listed.mem_iff i).trans same.mem_iff⟩

theorem Listed.add (listed : Listed bufs slots) (free : bufs slot = none) (k : Nat) :
    Listed (update bufs slot (some k)) (slot :: slots) := by
  refine ⟨List.nodup_cons.mpr ⟨fun used => (listed.mem_iff slot).mpr used free, listed.nodup⟩, fun i => ?_⟩
  by_cases same : i = slot
  · simp [same]
  · rw [update_of_ne same, listed.mem_iff, List.mem_cons]
    exact (or_iff_right same).symm

theorem Listed.remove (listed : Listed bufs (slot :: slots)) : Listed (update bufs slot none) slots := by
  obtain ⟨absent, nodup⟩ := List.nodup_cons.mp listed.nodup
  refine ⟨nodup, fun i => ?_⟩
  by_cases same : i = slot
  · simp [same, absent]
  · rw [update_of_ne same, listed.mem_iff, List.mem_cons]
    exact or_iff_right same

structure Filed (bufs : Nat → Option Nat) (a : Audit) : Prop where
  unfreed : ∀ i k, bufs i = some k → k < a.pages ∧ a.freed k = 0
  apart : ∀ i j k, bufs i = some k → bufs j = some k → i = j
  found : ∀ k < a.pages, a.freed k = 0 → ∃ i, bufs i = some k

theorem Filed.post (filed : Filed bufs a) (free : bufs slot = none) (new : a.freed a.pages = 0) (owners : List Nat) :
    Filed (update bufs slot (some a.pages)) (a.post owners) := by
  refine ⟨fun i k held => ?_, fun i j k first second => ?_, fun k below unfreed => ?_⟩
  · obtain ⟨-, is⟩ | ⟨-, old⟩ := update_cases held
    · cases is
      exact ⟨Nat.lt_succ_self _, new⟩
    · exact ⟨Nat.lt_succ_of_lt (filed.unfreed i k old).1, (filed.unfreed i k old).2⟩
  · refine update_apart (P := (· = some k)) (filed.apart · · k) (fun i _ old new => ?_) first second
    cases new
    exact (filed.unfreed i _ old).1.false
  · rcases Nat.lt_succ_iff_lt_or_eq.mp below with old | rfl
    · obtain ⟨i, held⟩ := filed.found k old unfreed
      refine ⟨i, (update_of_ne ?_ _ bufs).trans held⟩
      rintro rfl
      cases free.symm.trans held
    · exact ⟨slot, update_self ..⟩

theorem Filed.free (filed : Filed bufs a) (held : bufs slot = some k) : Filed (update bufs slot none) (a.free k) := by
  refine ⟨fun i v other => ?_, fun i j v first second => ?_, fun v below unfreed => ?_⟩
  · obtain ⟨-, none⟩ | ⟨apart, old⟩ := update_cases other
    · cases none
    · have differs : v ≠ k := by
        rintro rfl
        exact apart (filed.apart i slot v old held)
      exact ⟨(filed.unfreed i v old).1, (update_of_ne differs _ a.freed).trans (filed.unfreed i v old).2⟩
  · obtain ⟨-, none⟩ | ⟨-, old⟩ := update_cases first
    · cases none
    obtain ⟨-, none⟩ | ⟨-, old'⟩ := update_cases second
    · cases none
    exact filed.apart i j v old old'
  · have unfreed : update a.freed k (a.freed k + 1) v = 0 := unfreed
    rcases update_cases unfreed with ⟨-, ⟨⟩⟩ | ⟨same, unfreed⟩
    · obtain ⟨i, old⟩ := filed.found v below unfreed
      refine ⟨i, (update_of_ne ?_ _ bufs).trans old⟩
      rintro rfl
      exact same (Option.some.inj (old.symm.trans held))

theorem Filed.bounded {size : Nat} (filed : Filed bufs a) (below : ∀ i, bufs i ≠ none → i < size) :
    a.held.card ≤ size := by
  have inside : a.held.image some ⊆ (Finset.range size).image bufs := by
    intro value member
    obtain ⟨k, held, rfl⟩ := Finset.mem_image.mp member
    obtain ⟨taken, unfreed⟩ := Finset.mem_filter.mp held
    obtain ⟨i, filed⟩ := filed.found k (Finset.mem_range.mp taken) unfreed
    exact Finset.mem_image.mpr ⟨i, Finset.mem_range.mpr (below i (by simp [filed])), filed⟩
  calc a.held.card = (a.held.image some).card := (Finset.card_image_of_injective _ (Option.some_injective Nat)).symm
    _ ≤ ((Finset.range size).image bufs).card := Finset.card_le_card inside
    _ ≤ (Finset.range size).card := Finset.card_image_le
    _ = size := Finset.card_range size

structure Fair (a : Audit) : Prop where
  kept : a.overwritten = []
  once : ∀ k, a.freed k ≤ 1
  after : ∀ k, a.freed k ≠ 0 → a.returned k = true
  released : ∀ k, a.known k = true → a.freed k = 1
  new : ∀ k, a.pages ≤ k → a.returned k = false

theorem Fair.start : Fair .start := by
  refine ⟨rfl, fun _ => Nat.zero_le 1, fun _ freed => absurd rfl freed, fun _ known => ?_, fun _ _ => rfl⟩
  cases known

section

variable (fair : Fair a)
include fair

theorem Fair.unfreed (above : a.pages ≤ k) : a.freed k = 0 := by
  by_contra freed
  cases (fair.new k above).symm.trans (fair.after k freed)

theorem Fair.post (back : ∀ k ∈ owners, a.returned k = true) : Fair (a.post owners) := by
  refine ⟨?_, fair.once, fair.after, fair.released, fun k above => fair.new k (Nat.le_of_succ_le above)⟩
  have none : (owners.filter fun k => !a.returned k) = [] := by
    rw [List.filter_eq_nil_iff]
    intro k member
    simp [back k member]
  rw [Audit.post, fair.kept, none]
  rfl

theorem Fair.give (taken : k < a.pages) : Fair (a.give k) := by
  refine ⟨fair.kept, fair.once, fun v freed => ?_, fair.released, fun v above => ?_⟩
  · by_cases same : v = k
    · rw [same]
      exact update_self ..
    · exact (update_of_ne same _ a.returned).trans (fair.after v freed)
  · have above : a.pages ≤ v := above
    exact (update_of_ne (by omega) _ a.returned).trans (fair.new v above)

theorem Fair.free (unfreed : a.freed k = 0) (back : a.returned k = true) : Fair (a.free k) := by
  have other {v : Nat} (differs : v ≠ k) : (a.free k).freed v = a.freed v := update_of_ne differs _ a.freed
  have own : (a.free k).freed k = 1 := (update_self k _ a.freed).trans (congrArg (· + 1) unfreed)
  refine ⟨fair.kept, fun v => ?_, fun v freed => ?_, fun v known => ?_, fair.new⟩
  · by_cases same : v = k
    · rw [same, own]
    · rw [other same]
      exact fair.once v
  · by_cases same : v = k
    · rw [same]
      exact back
    · rw [other same] at freed
      exact fair.after v freed
  · by_cases same : v = k
    · rw [same, own]
    · rw [other same]
      exact fair.released v known

theorem Fair.look (freed : ∀ k, a.returned k = true → a.freed k ≠ 0) : Fair a.look :=
  { fair with released := fun k back => Nat.le_antisymm (fair.once k) (Nat.pos_of_ne_zero (freed k back)) }

theorem Fair.oneOwner {size : Nat} (bounded : a.held.card ≤ size) : OneOwner size a :=
  ⟨fair.kept, fair.once, fair.after, fair.released, bounded⟩

end

end

/-! ## ENA -/

namespace Ena

variable {depth taken i slot k : Nat} {ready : Bool} {s s' : Ena} {pending : List (BitVec 16)} {desc : TxDesc}

/-- The slots of the posted descriptors and of the completions not read yet. -/
def inUse (s : Ena) (pending : List (BitVec 16)) : List Nat :=
  s.posted.map (fun d => d.reqId.toNat) ++ pending.map BitVec.toNat

structure Queue (depth : Nat) (s : Ena) (taken : Nat) (pending : List (BitVec 16)) : Prop where
  ring : Holds depth s.cring taken pending
  tail : s.cqTail = taken + pending.length
  phase : s.cqPhase = PhaseRing.phase depth taken
  head : s.cqHead.toNat % depth = taken % depth
  wrap : depth ∣ 65536 ∨ s.cqHead.toNat = taken

structure Inv (depth : Nat) (s : Ena) (taken : Nat) (pending : List (BitVec 16)) : Prop where
  queue : Queue depth s taken pending
  listed : Listed s.txBufs (s.inUse pending)
  below : ∀ i ∈ s.inUse pending, i < depth
  filed : Filed s.txBufs s.audit
  fair : Fair s.audit
  posted : ∀ d ∈ s.posted, s.txBufs d.reqId.toNat = some d.page ∧ s.audit.returned d.page = false
  done : ∀ r ∈ pending, ∀ k, s.txBufs r.toNat = some k → s.audit.returned k = true
  owner : ∀ i k, s.owner i = some k → s.txBufs i = some k ∨ s.audit.returned k = true

theorem Inv.start : Inv depth .start 0 [] where
  queue := ⟨.start fun _ _ => rfl, rfl, by simp [Ena.start, PhaseRing.phase], rfl, .inr rfl⟩
  listed := ⟨List.nodup_nil, fun i => by simp [Ena.start, inUse]⟩
  below := nofun
  filed := ⟨nofun, nofun, nofun⟩
  fair := .start
  posted := nofun
  done := nofun
  owner := nofun

section

variable (inv : Inv depth s taken pending)
include inv

theorem Inv.oneOwner : OneOwner depth s.audit :=
  inv.fair.oneOwner (inv.filed.bounded fun i used => inv.below i ((inv.listed.mem_iff i).mp used))

/-- Every page returned and not freed is that of a completion not read yet. -/
theorem Inv.unread (back : s.audit.returned k = true) (unfreed : s.audit.freed k = 0) : pending ≠ [] := by
  have old : k < s.audit.pages := by
    by_contra above
    cases (inv.fair.new k (not_lt.mp above)).symm.trans back
  obtain ⟨i, held⟩ := inv.filed.found k old unfreed
  have used := (inv.listed.mem_iff i).mp (by simp [held])
  rintro rfl
  rw [inUse, List.map_nil, List.append_nil] at used
  obtain ⟨d, member, rfl⟩ := List.mem_map.mp used
  obtain ⟨filed, out⟩ := inv.posted d member
  obtain rfl := Option.some.inj (filed.symm.trans held)
  cases out.symm.trans back

theorem Inv.tx (positive : 0 < depth) (small : depth ≤ ioqDepth)
    (free : s.txBufs (s.slot depth) = none) (len : Nat) : Inv depth (enaEthTx depth s len) taken pending := by
  have bound : s.slot depth < depth := Nat.mod_lt _ positive
  have below : s.slot depth < 64 := bound.trans_le small
  have number : (BitVec.ofNat 16 (s.slot depth)).toNat = s.slot depth := by
    rw [BitVec.toNat_ofNat, Nat.mod_eq_of_lt (by omega)]
  obtain ⟨desc, made⟩ : ∃ desc, txDesc (if len < 60 then 60 else len) (BitVec.ofNat 16 (s.slot depth)) s.sqPhase
      s.audit.pages = desc :=
    ⟨_, rfl⟩
  have rid : desc.reqId.toNat = s.slot depth := by
    rw [← made, txDesc_reqId _ (by omega), number]
  have page : desc.page = s.audit.pages := by
    rw [← made]
    rfl
  have uses : (s.slot depth :: s.inUse pending).Perm ((enaEthTx depth s len).inUse pending) := by
    simp only [inUse, enaEthTx, made, List.map_append, List.map_cons, List.map_nil, rid, List.append_assoc]
    exact List.perm_middle.symm
  have apart {i v : Nat} (held : s.txBufs i = some v) : i ≠ s.slot depth := by
    rintro rfl
    cases free.symm.trans held
  exact {
    queue := { inv.queue with }
    listed := (inv.listed.add free s.audit.pages).perm uses
    below := fun i member => by
      rcases List.mem_cons.mp (uses.mem_iff.mpr member) with rfl | old
      · exact bound
      · exact inv.below i old
    filed := inv.filed.post free (inv.fair.unfreed le_rfl) _
    fair := inv.fair.post fun k member => by
      have owner : s.owner (s.slot depth) = some k := by simpa using member
      exact (inv.owner _ k owner).resolve_left (by simp [free])
    posted := fun d member => by
      simp only [enaEthTx, made, List.mem_append, List.mem_singleton] at member
      rcases member with old | rfl
      · obtain ⟨filed, out⟩ := inv.posted d old
        exact ⟨(update_of_ne (apart filed) _ s.txBufs).trans filed, out⟩
      · rw [rid, page]
        exact ⟨update_self .., inv.fair.new _ le_rfl⟩
    done := fun r member k held => by
      have used : s.txBufs r.toNat ≠ none :=
        (inv.listed.mem_iff _).mpr (List.mem_append_right _ (List.mem_map_of_mem member))
      have other : r.toNat ≠ s.slot depth := fun same => used (same ▸ free)
      exact inv.done r member k ((update_of_ne other _ s.txBufs).symm.trans held)
    owner := fun i k owns => by
      obtain ⟨rfl, is⟩ | ⟨other, old⟩ := update_cases owns
      · exact .inl ((update_self ..).trans is)
      · exact (inv.owner i k old).imp_left fun held => (update_of_ne other _ s.txBufs).trans held }

end

/-- The position of the head after one more entry; the 16-bit counter agrees with it across its wrap
where the depth divides 2^16. -/
theorem Queue.advance (queue : Queue depth s taken pending) (even : depth ∣ 65536 ∨ s.cqHead.toNat + 1 < 65536) :
    (s.cqHead + 1).toNat % depth = (taken + 1) % depth ∧ (depth ∣ 65536 ∨ (s.cqHead + 1).toNat = taken + 1) := by
  have next : (s.cqHead + 1).toNat = (s.cqHead.toNat + 1) % 65536 := BitVec.toNat_add ..
  have head : (s.cqHead.toNat + 1) % depth = (taken + 1) % depth := Nat.ModEq.add_right 1 queue.head
  by_cases divides : depth ∣ 65536
  · rw [next, Nat.mod_mod_of_dvd _ divides]
    exact ⟨head, .inl divides⟩
  · have same := queue.wrap.resolve_left divides
    rw [next, Nat.mod_eq_of_lt (even.resolve_left divides)]
    exact ⟨head, .inr (by rw [same])⟩

theorem Queue.fresh_iff (queue : Queue depth s taken pending) (positive : 0 < depth) :
    s.fresh depth = true ↔ pending ≠ [] := by
  rw [fresh, beq_iff_eq, queue.head, queue.phase]
  exact queue.ring.waiting_iff positive

theorem Inv.read {r : BitVec 16} (inv : Inv depth s taken (r :: pending)) (small : depth ≤ ioqDepth)
    (even : depth ∣ 65536 ∨ s.cqHead.toNat + 1 < 65536) (new : s.fresh depth = true) :
    Inv depth (enaTxDrain depth s) (taken + 1) pending := by
  have entry : s.cring (s.cqHead.toNat % depth) = (r, PhaseRing.phase depth taken) := by
    rw [inv.queue.head]
    exact inv.queue.ring.front
  have uses : (s.inUse (r :: pending)).Perm (r.toNat :: s.inUse pending) := List.perm_middle
  have used : r.toNat ∈ s.inUse (r :: pending) := uses.mem_iff.mpr List.mem_cons_self
  have slot : r.toNat % ioqDepth = r.toNat := Nat.mod_eq_of_lt ((inv.below _ used).trans_le small)
  obtain ⟨k, held⟩ := Option.ne_none_iff_exists'.mp ((inv.listed.mem_iff r.toNat).mpr used)
  have back := inv.done r List.mem_cons_self k held
  have unfreed := (inv.filed.unfreed r.toNat k held).2
  obtain ⟨head, wrap⟩ := inv.queue.advance even
  have absent := (List.nodup_cons.mp (uses.nodup_iff.mp inv.listed.nodup)).1
  have after : enaTxDrain depth s = { s with
      txBufs := update s.txBufs r.toNat none
      audit := s.audit.free k
      cqHead := s.cqHead + 1
      cqPhase := if (s.cqHead + 1).toNat % depth = 0 then !s.cqPhase else s.cqPhase } := by
    rw [enaTxDrain, if_pos new, entry, slot, reclaim, held]
  rw [after]
  exact {
    queue := {
      ring := inv.queue.ring.pop
      tail := inv.queue.tail.trans (by rw [List.length_cons]; omega)
      phase := by rw [head, inv.queue.phase, phase_succ]
      head := head
      wrap := wrap }
    listed := (inv.listed.perm uses).remove
    below := fun i member => inv.below i (uses.mem_iff.mpr (List.mem_cons_of_mem _ member))
    filed := inv.filed.free held
    fair := inv.fair.free unfreed back
    posted := fun d member => by
      obtain ⟨filed, out⟩ := inv.posted d member
      have other : d.reqId.toNat ≠ r.toNat := by
        intro same
        exact absent (same ▸ List.mem_append_left _ (List.mem_map_of_mem member))
      exact ⟨(update_of_ne other _ s.txBufs).trans filed, out⟩
    done := fun r' member v holds => by
      obtain ⟨-, none⟩ | ⟨-, old⟩ := update_cases holds
      · cases none
      · exact inv.done r' (List.mem_cons_of_mem _ member) v old
    owner := fun i v owns => by
      by_cases same : i = r.toNat
      · obtain old | out := inv.owner i v owns
        · obtain rfl := Option.some.inj (held.symm.trans (same ▸ old))
          exact .inr back
        · exact .inr out
      · exact (inv.owner i v owns).imp_left fun old => (update_of_ne same _ s.txBufs).trans old }

theorem Inv.finish (inv : Inv depth s taken []) (none : s.fresh depth = false) :
    Inv depth (enaTxDrain depth s) taken [] := by
  rw [enaTxDrain, none]
  refine { inv with
    queue := { inv.queue with }, filed := { inv.filed with }, fair := inv.fair.look fun k back unfreed => ?_ }
  exact inv.unread back unfreed rfl

theorem Inv.complete (inv : Inv depth s taken pending) (posted : s.posted[i]? = some desc) :
    Inv depth (complete depth s i desc) taken (pending ++ [desc.reqId]) := by
  obtain ⟨inside, rfl⟩ := List.getElem?_eq_some_iff.mp posted
  have taken_out : (s.posted[i] :: s.posted.eraseIdx i).Perm s.posted := List.getElem_cons_eraseIdx_perm inside
  have uses : (s.inUse pending).Perm ((complete depth s i s.posted[i]).inUse (pending ++ [s.posted[i].reqId])) := by
    have moved := (taken_out.map fun d => d.reqId.toNat).symm.append_right (pending.map BitVec.toNat)
    refine moved.trans ?_
    simp only [inUse, Transmit.Ena.complete, List.map_append, List.map_cons, List.map_nil, List.cons_append]
    rw [← List.append_assoc]
    exact (List.perm_append_singleton _ _).symm
  obtain ⟨filed, out⟩ := inv.posted _ (List.getElem_mem inside)
  have room : pending.length < depth := by
    have count : (s.inUse pending).length ≤ depth := by
      have inside : (s.inUse pending).toFinset ⊆ Finset.range depth := fun j member =>
        Finset.mem_range.mpr (inv.below j (List.mem_toFinset.mp member))
      have := Finset.card_le_card inside
      rwa [List.toFinset_card_of_nodup inv.listed.nodup, Finset.card_range] at this
    rw [inUse, List.length_append, List.length_map, List.length_map] at count
    omega
  have page := (inv.filed.unfreed _ _ filed).1
  exact {
    queue := {
      ring := by
        rw [Transmit.Ena.complete, inv.queue.tail]
        exact inv.queue.ring.push room _
      tail := by
        rw [Transmit.Ena.complete, inv.queue.tail, List.length_append]
        rfl
      phase := inv.queue.phase
      head := inv.queue.head
      wrap := inv.queue.wrap }
    listed := inv.listed.perm uses
    below := fun j member => inv.below j (uses.mem_iff.mpr member)
    filed := { inv.filed with }
    fair := inv.fair.give page
    posted := fun d member => by
      obtain ⟨own, still⟩ := inv.posted d (taken_out.mem_iff.mp (List.mem_cons_of_mem _ member))
      refine ⟨own, (update_of_ne ?_ _ s.audit.returned).trans still⟩
      -- two posted descriptors with one page would be in one slot
      intro same
      have slots := (uses.nodup_iff.mp inv.listed.nodup)
      have twice := inv.filed.apart _ _ _ own (same ▸ filed)
      refine (List.disjoint_of_nodup_append slots) (List.mem_map_of_mem member) ?_
      simp [twice]
    done := fun r member k held => by
      by_cases same : k = s.posted[i].page
      · rw [same]
        exact update_self ..
      · refine (update_of_ne same _ s.audit.returned).trans ?_
        rcases List.mem_append.mp member with old | last
        · exact inv.done r old k held
        · obtain rfl := List.mem_singleton.mp last
          exact absurd (Option.some.inj (held.symm.trans filed)) same
    owner := fun j k owns => by
      by_cases same : k = s.posted[i].page
      · rw [same]
        exact .inr (update_self ..)
      · exact (inv.owner j k owns).imp_right (update_of_ne same _ s.audit.returned).trans }

/-- A send finds its place in tx_bufs empty, and cq_head wraps only where the depth divides 2^16. -/
def Free (depth : Nat) (ready : Bool) (s : Ena) : Event → Prop
  | .tx len page => accepts ready len page = true → s.txBufs (s.slot depth) = none
  | .drain => s.fresh depth = true → depth ∣ 65536 ∨ s.cqHead.toNat + 1 < 65536
  | .complete _ => True

instance (depth : Nat) (ready : Bool) (s : Ena) : (e : Event) → Decidable (Free depth ready s e)
  | .tx len page => inferInstanceAs (Decidable (accepts ready len page = true → s.txBufs (s.slot depth) = none))
  | .drain => inferInstanceAs (Decidable (s.fresh depth = true → depth ∣ 65536 ∨ s.cqHead.toNat + 1 < 65536))
  | .complete _ => .isTrue trivial

theorem Inv.step {e : Event} (inv : Inv depth s taken pending) (positive : 0 < depth) (small : depth ≤ ioqDepth)
    (allowed : Free depth ready s e) (made : step depth ready s e = some s') :
    ∃ taken' pending', Inv depth s' taken' pending' := by
  cases e with
  | tx len page =>
    simp only [Ena.step] at made
    split at made
    · cases made
    cases made
    by_cases accepted : accepts ready len page = true
    · rw [if_pos accepted]
      exact ⟨taken, pending, inv.tx positive small (allowed accepted) len⟩
    · rw [if_neg accepted]
      exact ⟨taken, pending, inv⟩
  | drain =>
    simp only [Ena.step] at made
    split at made
    · cases made
      have waiting := inv.queue.fresh_iff positive
      cases pending with
      | nil => exact ⟨taken, [], inv.finish (by simpa using waiting)⟩
      | cons r rest =>
        have new : s.fresh depth = true := by simpa using waiting
        exact ⟨taken + 1, rest, inv.read small (allowed new) new⟩
    · cases made
  | complete i =>
    simp only [Ena.step] at made
    split at made
    · cases made
    next desc posted =>
      cases made
      exact ⟨taken, pending ++ [desc.reqId], inv.complete posted⟩

theorem reach_inv (positive : 0 < depth) (small : depth ≤ ioqDepth)
    (reached : Run.Reach (step depth ready) (Free depth ready) Booted s) :
    ∃ taken pending, Inv depth s taken pending := by
  induction reached with
  | start booted =>
    obtain rfl := booted
    exact ⟨0, [], .start⟩
  | next _ allowed made ih =>
    obtain ⟨taken, pending, inv⟩ := ih
    exact inv.step positive small allowed made

end Ena

/-! ## virtio-net -/

namespace Virtio

variable {num i : Nat} {ready : Bool} {s s' : Virtio}

/-- A send finds both its descriptors returned and has taken fewer pages than there are descriptors, and no
interrupt is handled once a chain has been returned. -/
def Free (num : Nat) (ready : Bool) (s : Virtio) : Event → Prop
  | .tx len page =>
    accepts ready len page = true → (∀ k ∈ s.owners num, s.audit.returned k = true) ∧ s.audit.pages < num
  | .irq => ready = true → ∀ k < s.audit.pages, s.audit.returned k = false
  | .complete _ => True

instance (num : Nat) (ready : Bool) (s : Virtio) : (e : Event) → Decidable (Free num ready s e)
  | .tx len page => inferInstanceAs (Decidable
      (accepts ready len page = true → (∀ k ∈ s.owners num, s.audit.returned k = true) ∧ s.audit.pages < num))
  | .irq => inferInstanceAs (Decidable (ready = true → ∀ k < s.audit.pages, s.audit.returned k = false))
  | .complete _ => .isTrue trivial

structure Inv (num : Nat) (s : Virtio) : Prop where
  fair : Fair s.audit
  posted : ∀ chain ∈ s.posted, chain.2 < s.audit.pages
  bounded : s.audit.pages ≤ num

theorem Inv.oneOwner (inv : Inv num s) : OneOwner num s.audit := by
  refine inv.fair.oneOwner (le_trans ?_ inv.bounded)
  calc s.audit.held.card ≤ (Finset.range s.audit.pages).card := Finset.card_filter_le _ _
    _ = s.audit.pages := Finset.card_range _

theorem Inv.step {e : Event} (inv : Inv num s) (allowed : Free num ready s e) (made : step num ready s e = some s') :
    Inv num s' := by
  cases e with
  | tx len page =>
    cases made
    by_cases accepted : accepts ready len page = true
    · rw [if_pos accepted]
      obtain ⟨back, room⟩ := allowed accepted
      refine ⟨inv.fair.post back, fun chain member => ?_, room⟩
      rcases List.mem_append.mp member with old | last
      · exact Nat.lt_succ_of_lt (inv.posted chain old)
      · rw [List.mem_singleton.mp last]
        exact Nat.lt_succ_self _
    · rw [if_neg accepted]
      exact inv
  | irq =>
    cases made
    rw [virtioNetIrq]
    split
    next on =>
      refine ⟨inv.fair.look fun k back => ?_, inv.posted, inv.bounded⟩
      have out : s.audit.returned k = false := by
        by_cases old : k < s.audit.pages
        · exact allowed on k old
        · exact inv.fair.new k (not_lt.mp old)
      cases out.symm.trans back
    · exact inv
  | complete i =>
    simp only [Virtio.step] at made
    split at made
    · cases made
    next chain posted =>
      cases made
      refine ⟨inv.fair.give (inv.posted chain (List.mem_of_getElem? posted)), fun other member => ?_, inv.bounded⟩
      exact inv.posted other (List.mem_of_mem_eraseIdx member)

theorem reach_inv (reached : Run.Reach (step num ready) (Free num ready) Booted s) : Inv num s := by
  refine reached.invariant ?_ fun s e s' inv allowed made => inv.step allowed made
  rintro s rfl
  exact ⟨.start, nofun, Nat.zero_le num⟩

end Virtio

/-! ## Both drivers -/

theorem transmit_one_owner (ready : Bool) : (∀ depth s, 0 < depth → depth ≤ Ena.ioqDepth →
      Run.Reach (Ena.step depth ready) (Ena.Free depth ready) Ena.Booted s → OneOwner depth s.audit) ∧
    ∀ num s, Run.Reach (Virtio.step num ready) (Virtio.Free num ready) Virtio.Booted s → OneOwner num s.audit := by
  refine ⟨fun depth s positive small reached => ?_, fun num s reached => (Virtio.reach_inv reached).oneOwner⟩
  obtain ⟨taken, pending, inv⟩ := Ena.reach_inv positive small reached
  exact inv.oneOwner

/-- Sends on a ring of four slots with the descriptors returned in the other order, and sends on a queue of four
descriptors. -/
theorem transmit_one_owner_sends : (∃ s, Run.Reach (Ena.step 4 true) (Ena.Free 4 true) Ena.Booted s ∧
      (s.audit.pages = 3 ∧ s.audit.freed 0 = 1 ∧ s.audit.freed 1 = 1 ∧ s.audit.freed 2 = 0) ∧ OneOwner 4 s.audit) ∧
    ∃ s, Run.Reach (Virtio.step 4 true) (Virtio.Free 4 true) Virtio.Booted s ∧
      (s.audit.pages = 3 ∧ s.audit.returned 0 = true) ∧ OneOwner 4 s.audit := by
  obtain ⟨ena, virtio⟩ := transmit_one_owner true
  constructor
  · exact Run.Reach.found_with (fun s => ena 4 s (by decide) (by decide)) [.tx 42 true, .drain, .tx 1500 true, .drain,
      .complete 1, .complete 0, .tx 60 true, .drain, .drain, .drain] rfl (by decide +kernel)
  · exact Run.Reach.found_with (virtio 4) [.tx 42 true, .irq, .tx 1500 true, .complete 0,
      .tx 60 true] rfl (by decide +kernel)

/-- Without the condition: on a full ring ENA rewrites a descriptor that the device has and frees the new page
when the old one is returned; virtio-net rewrites descriptors that the device has, and after as many sends as
descriptors it holds more pages than those, all of them returned. -/
theorem transmit_slots_overwritten : (∃ s, Run.Reach (Ena.step 4 true) (fun _ _ => True) Ena.Booted s ∧
      s.audit.overwritten = [0] ∧ s.audit.freed 4 = 1 ∧ s.audit.returned 4 = false) ∧
    (∃ s, Run.Reach (Virtio.step 4 true) (fun _ _ => True) Virtio.Booted s ∧ s.audit.overwritten = [0, 0]) ∧
    ∃ s, Run.Reach (Virtio.step 4 true) (fun _ _ => True) Virtio.Booted s ∧
      s.audit.overwritten = [] ∧ s.audit.held.card = 5 ∧ s.audit.known 0 = true ∧ s.audit.freed 0 = 0 := by
  refine ⟨?_, ?_, ?_⟩
  · exact Run.Reach.found ((List.replicate 4 [.tx 60 true, .drain]).flatten ++ [.tx 60 true, .complete 0, .drain]) rfl
      (by decide +kernel)
  · exact Run.Reach.found (List.replicate 3 (.tx 60 true)) rfl (by decide +kernel)
  · exact Run.Reach.found ((List.replicate 5 [.tx 60 true, .complete 0]).flatten ++ [.irq]) rfl (by decide +kernel)

end Kappara.Transmit
