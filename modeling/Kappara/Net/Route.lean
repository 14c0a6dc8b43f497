import Kappara.Lib.SlotTable

/-! Interfaces and routes (uts/os/net/netif.c, the routing half of
uts/os/net/ipv4.c).

IP routes over the interfaces linked under its multiplexer, TCP sizes its
segments by the registered interfaces; the two tables are kept apart as in the
source, and both use longest-prefix match where a later entry wins a tie.

The bind table of IP (ip_bind, ip_unbind and ip_demux): a datagram goes to every
stream bound to its protocol; the key of the bind is kept but not compared. Streams
are named by number in the place of their read queues. -/

set_option autoImplicit false

namespace Kappara.Net

open SlotTable (insert remove toList)

abbrev Ip := BitVec 32

abbrev Port := BitVec 16

structure Netif where
  ip : Ip
  netmask : Ip
  gateway : Ip
  mtu : BitVec 32
  deriving DecidableEq

/-- The linked interfaces in slot order and the registered ones in list order. -/
structure Interfaces where
  lowers : List Netif
  netifs : List Netif
  deriving DecidableEq

def prefixBits (mask : Ip) : Nat := (List.range 32).countP fun i => mask.getLsbD i

def Netif.covers (nif : Netif) (dst : Ip) : Bool := dst &&& nif.netmask == nif.ip &&& nif.netmask

/-- Longest-prefix match; an equal prefix found later replaces the earlier one. -/
def bestMatch (dst : Ip) : Option Netif → List Netif → Option Netif
  | best, [] => best
  | best, nif :: rest =>
    let better := match best with
      | none => true
      | some old => prefixBits old.netmask ≤ prefixBits nif.netmask
    bestMatch dst (if nif.covers dst && better then some nif else best) rest

section

variable (net : Interfaces) (dst : Ip)

def ipRoute : Option Netif :=
  match bestMatch dst none net.lowers with
  | some nif => some nif
  | none => net.lowers.find? fun nif => nif.gateway != 0#32

def ipRouteSrc : Ip :=
  match ipRoute net dst with
  | some nif => nif.ip
  | none => 0#32

def netifRoute : Option Netif := bestMatch dst none net.netifs

def ipHdrLen : BitVec 32 := 20

/-- The checks of ip_handle_send on a datagram with the given payload length. -/
def ipCarries (payload : BitVec 32) : Bool :=
  match ipRoute net dst with
  | none => false
  | some nif => payload ≤ nif.mtu - ipHdrLen

end

/-- One of the interfaces that cover dst with the longest prefix; none where none covers it. -/
structure Longest (dst : Ip) (nifs : List Netif) (best : Option Netif) : Prop where
  covers : ∀ r ∈ best, r ∈ nifs ∧ r.covers dst
  most : ∀ nif ∈ nifs, nif.covers dst → ∃ r ∈ best, prefixBits nif.netmask ≤ prefixBits r.netmask

theorem Longest.next {dst : Ip} {seen : List Netif} {best : Option Netif} (longest : Longest dst seen best)
    (rest : List Netif) : Longest dst (seen ++ rest) (bestMatch dst best rest) := by
  induction rest generalizing seen best with
  | nil => rwa [List.append_nil]
  | cons nif rest ih =>
    rw [List.append_cons]
    apply ih
    constructor
    · intro r chosen
      have old := longest.covers r
      grind
    · intro old member covers
      have most := longest.most old
      grind

theorem bestMatch_longest (dst : Ip) (nifs : List Netif) : Longest dst nifs (bestMatch dst none nifs) :=
  @Longest.next dst [] none ⟨by simp, by simp⟩ _

/-- The entry that covers dst with the longest prefix; of several with that prefix the last. -/
def LastLongest (dst : Ip) (nifs : List Netif) (r : Netif) : Prop :=
  ∃ i : Nat, nifs[i]? = some r ∧ r.covers dst ∧ ∀ (j : Nat) (nif : Netif), nifs[j]? = some nif → nif.covers dst →
    prefixBits nif.netmask < prefixBits r.netmask ∨ prefixBits nif.netmask = prefixBits r.netmask ∧ j ≤ i

theorem bestMatch_append (dst : Ip) (best : Option Netif) (first second : List Netif) :
    bestMatch dst best (first ++ second) = bestMatch dst (bestMatch dst best first) second := by
  induction first generalizing best with
  | nil => rfl
  | cons nif rest ih => exact ih _

theorem LastLongest.of_bestMatch {dst : Ip} {nifs : List Netif} {r : Netif} (found : bestMatch dst none nifs = some r) :
    LastLongest dst nifs r := by
  induction nifs using List.reverseRecOn generalizing r with
  | nil => cases found
  | append_singleton nifs last ih =>
    have longest := bestMatch_longest dst nifs
    simp only [bestMatch_append, bestMatch] at found
    rw [ite_eq_iff] at found
    rcases found with ⟨taken, ⟨⟩⟩ | ⟨kept, found⟩
    · refine ⟨nifs.length, by simp, by grind, fun j nif there covers => ?_⟩
      have := longest.most nif
      grind
    · obtain ⟨i, there, covers, most⟩ := ih found
      refine ⟨i, by grind, covers, fun j nif at_ hit => ?_⟩
      have := most j nif
      grind

theorem LastLongest.unique {dst : Ip} {nifs : List Netif} {r s : Netif} (first : LastLongest dst nifs r)
    (second : LastLongest dst nifs s) : r = s := by
  obtain ⟨i, there, covers, most⟩ := first
  obtain ⟨j, here, hit, last⟩ := second
  have := most j s here hit
  have := last i r there covers
  have same : i = j := by omega
  subst same
  rw [there] at here
  cases here
  rfl

theorem bestMatch_iff {dst : Ip} {nifs : List Netif} {r : Netif} :
    bestMatch dst none nifs = some r ↔ LastLongest dst nifs r := by
  refine ⟨.of_bestMatch, fun last => ?_⟩
  cases found : bestMatch dst none nifs with
  | some s => rw [(LastLongest.of_bestMatch found).unique last]
  | none =>
    have longest := bestMatch_longest dst nifs
    obtain ⟨i, there, covers, -⟩ := last
    obtain ⟨s, chosen, -⟩ := longest.most r (List.mem_of_getElem? there) covers
    rw [found] at chosen
    cases chosen

/-- What ip_route is for: an interface with an address that covers dst, with the longest prefix of these; else one with
a gateway, if there is one; and none that has neither address nor netmask. -/
structure Routed (lowers : List Netif) (dst : Ip) (chosen : Option Netif) : Prop where
  subnet : (∃ nif ∈ lowers, nif.ip ≠ 0#32 ∧ nif.covers dst) → Longest dst (lowers.filter (·.ip ≠ 0#32)) chosen
  default : (∀ nif ∈ lowers, nif.ip ≠ 0#32 → ¬ nif.covers dst) → (∃ nif ∈ lowers, nif.gateway ≠ 0#32) →
    ∃ gate ∈ chosen, gate ∈ lowers ∧ gate.gateway ≠ 0#32
  configured : ∀ nif ∈ chosen, ¬ (nif.ip = 0#32 ∧ nif.netmask = 0#32)

/-- This holds exactly if the longest of all prefixes that match belongs to an interface with an address, or to one with
a netmask where no interface with an address covers dst and no gateway is passed over. -/
theorem routed_iff (net : Interfaces) (dst : Ip) : Routed net.lowers dst (ipRoute net dst) ↔
    ∀ r, LastLongest dst net.lowers r → r.ip ≠ 0#32 ∨
      r.netmask ≠ 0#32 ∧ (∀ nif ∈ net.lowers, nif.ip ≠ 0#32 → ¬ nif.covers dst) ∧
        ((∃ nif ∈ net.lowers, nif.gateway ≠ 0#32) → r.gateway ≠ 0#32) := by
  simp only [← bestMatch_iff]
  have longest := bestMatch_longest dst net.lowers
  unfold ipRoute
  cases found : bestMatch dst none net.lowers with
  | none =>
    rw [found] at longest
    have bare (nif : Netif) (member : nif ∈ net.lowers) : ¬ nif.covers dst := by
      intro covers
      obtain ⟨r, ⟨⟩, -⟩ := longest.most nif member covers
    refine iff_of_true ⟨?_, ?_, ?_⟩ (by simp)
    · rintro ⟨nif, member, -, covers⟩
      exact absurd covers (bare nif member)
    · rintro - ⟨nif, member, gateway⟩
      cases gate : net.lowers.find? fun nif => nif.gateway != 0#32 with
      | none => simpa [gateway] using List.find?_eq_none.mp gate nif member
      | some gate' => exact ⟨gate', rfl, List.mem_of_find?_eq_some gate, by simpa using List.find?_some gate⟩
    · rintro nif chosen ⟨-, mask⟩
      exact bare nif (List.mem_of_find?_eq_some chosen) (by simp [Netif.covers, mask])
  | some r =>
    rw [found] at longest
    obtain ⟨member, covers⟩ := longest.covers r rfl
    constructor
    · rintro ⟨subnet, default, configured⟩ r ⟨⟩
      by_cases address : r.ip = 0#32
      · have bare (nif : Netif) (inside : nif ∈ net.lowers) (own : nif.ip ≠ 0#32) : ¬ nif.covers dst := by
          intro hit
          have chosen := ((subnet ⟨nif, inside, own, hit⟩).covers r rfl).1
          simp [address] at chosen
        refine .inr ⟨fun mask => configured r rfl ⟨address, mask⟩, bare, fun gate => ?_⟩
        obtain ⟨_, ⟨⟩, -, gateway⟩ := default bare gate
        exact gateway
      · exact .inl address
    · intro fits
      rcases fits r rfl with address | ⟨mask, bare, gateway⟩
      · refine ⟨fun _ => ⟨?_, fun nif inside => longest.most nif (List.mem_of_mem_filter inside)⟩, fun bare => ?_, ?_⟩
        · rintro _ ⟨⟩
          exact ⟨by simp [member, address], covers⟩
        · exact absurd covers (bare r member address)
        · rintro _ ⟨⟩ unset
          exact address unset.1
      · refine ⟨?_, fun _ gate => ⟨r, rfl, member, gateway gate⟩, ?_⟩
        · rintro ⟨nif, inside, own, hit⟩
          exact absurd hit (bare nif inside own)
        · rintro _ ⟨⟩ unset
          exact mask unset.2

/-- An interface that has no address yet takes what should go to the gateway of another. -/
theorem unconfigured_takes_default : let eth0 : Netif := ⟨0, 0, 0, 1500⟩
    let net : Interfaces := ⟨[⟨0x0a000001#32, 0xffffff00#32, 0x0a0000fe#32, 1500⟩, eth0], []⟩
    ipRoute net 0x08080808#32 = some eth0 ∧ ¬ Routed net.lowers 0x08080808#32 (ipRoute net 0x08080808#32) := by
  refine ⟨by decide, fun routed => routed.configured ⟨0, 0, 0, 1500⟩ (by decide) ⟨rfl, rfl⟩⟩

structure Upper where
  proto : Byte
  key : BitVec 32
  rq : Nat
  deriving DecidableEq

abbrev ipMaxUppers : Nat := 16

abbrev Uppers := SlotTable ipMaxUppers Upper

def ipprotoTcp : Byte := 6#8

/-- None where the source returns -1: an exact duplicate, or no free slot. -/
def ipBind (uppers : Uppers) (upper : Upper) : Option Uppers :=
  if upper ∈ toList uppers then none else insert uppers upper

def ipUnbind (uppers : Uppers) (upper : Upper) : Uppers := remove uppers upper

def ipDemux (uppers : Uppers) (proto : Byte) : List Nat :=
  ((toList uppers).filter fun upper => upper.proto = proto).map Upper.rq

end Kappara.Net
