import Kappara.Net.Multicast

/-! Datagrams as IP sends them (ip_handle_send of uts/os/net/ipv4.c), read back
by ip_rput.

The checksum of a header is a sum of 16-bit words in one's complement. It comes
out as zero exactly where the sum is a positive multiple of 65535, and one bit
changes the sum by a power of two, which is none. -/

set_option autoImplicit false

namespace Kappara.Net

open Streams Tcp
open BitVec (eq_of_toNat_eq toNat_append toNat_ofNat toNat_setWidth)

def htons16 (w : BitVec 16) : List Byte := [(w >>> 8).setWidth 8, w.setWidth 8]

def ipDefaultTtl : Byte := 64#8

/-- The header that ip_handle_send writes, with the given checksum field. -/
def ipHeader (total id : BitVec 16) (proto : Byte) (src dst : Ip) (checksum : BitVec 16) : List Byte :=
  [0x45#8, 0#8] ++ htons16 total ++ htons16 id ++ [0#8, 0#8, ipDefaultTtl, proto] ++ htons16 checksum ++ ipBytes src ++
    ipBytes dst

/-- The frame for the lower queue and ip_id_next after it, from the bytes of the message block and the room
in front of them. -/
def ipHandleSend (net : Interfaces) (ipIdNext : BitVec 16) (proto : Byte) (dst : Ip) (headroom : Nat)
    (payload : List Byte) : Option (List Byte × BitVec 16) :=
  if ipCarries net dst (BitVec.ofNat 32 payload.length) ∧ ipHdrLen.toNat ≤ headroom then
    let id := ipIdNext + 1#16
    let header := ipHeader (BitVec.ofNat 16 (ipHdrLen.toNat + payload.length)) id proto (ipRouteSrc net dst) dst
    some (header (ipChecksum (header 0#16)) ++ payload, id)
  else none

/-! ## The sum of a header -/

/-- The sum of the words of a range of bytes, without the limit of 32 bits. -/
def wordSum : List Byte → Nat
  | [] => 0
  | [last] => 256 * last.toNat
  | high :: low :: rest => 256 * high.toNat + low.toNat + wordSum rest

def weight (p : Nat) : Nat := if p % 2 = 0 then 256 else 1

theorem ntohs16_toNat (high low : Byte) : (ntohs16 high low).toNat = 256 * high.toNat + low.toNat := by
  rw [ntohs16, toNat_append, Nat.shiftLeft_eq, Nat.mul_comm, ← Nat.two_pow_add_eq_or_of_lt low.isLt]

theorem sumWords_toNat (bytes : List Byte) : (sumWords bytes).toNat = wordSum bytes % 2 ^ 32 := by
  fun_induction wordSum bytes with
  | case1 => rfl
  | case2 last =>
    rw [sumWords, toNat_setWidth, ntohs16_toNat]
    rfl
  | case3 high low rest ih =>
    rw [sumWords, BitVec.toNat_add, toNat_setWidth, ntohs16_toNat]
    omega

theorem wordSum_le (bytes : List Byte) : wordSum bytes ≤ 65535 * bytes.length := by
  fun_induction wordSum bytes with
  | case1 => exact Nat.zero_le _
  | case2 last =>
    rw [List.length_singleton]
    omega
  | case3 high low rest ih =>
    rw [List.length_cons, List.length_cons]
    omega

variable {bytes : List Byte} {p : Nat}

theorem ipChecksum_toNat (short : bytes.length ≤ 2 ^ 15) :
    (ipChecksum bytes).toNat = if wordSum bytes = 0 then 65535 else 65534 - (wordSum bytes - 1) % 65535 := by
  have bound := wordSum_le bytes
  have small : wordSum bytes % 2 ^ 32 = wordSum bytes := Nat.mod_eq_of_lt (by omega)
  rw [ipChecksum, BitVec.toNat_not, toNat_setWidth, foldCarry_twice, sumWords_toNat, small]
  split
  · rfl
  · omega

theorem wordSum_set (bytes : List Byte) (p : Nat) (byte : Byte) (inside : p < bytes.length) :
    wordSum (bytes.set p byte) + weight p * (bytes.getD p 0#8).toNat = wordSum bytes + weight p * byte.toNat := by
  fun_induction wordSum bytes generalizing p with
  | case1 => cases inside
  | case2 last =>
    obtain rfl : p = 0 := by simpa using inside
    simp only [List.set_cons_zero, wordSum, List.getD_cons_zero, weight, if_true]
    omega
  | case3 high low rest ih =>
    match p with
    | 0 =>
      simp only [List.set_cons_zero, wordSum, List.getD_cons_zero, weight, if_true]
      omega
    | 1 =>
      simp [wordSum, weight]
      omega
    | p + 2 =>
      have rest := ih p (by simpa using inside)
      have same : weight (p + 2) = weight p := by simp [weight]
      simp only [List.set_cons_succ, wordSum, List.getD_cons_succ, same]
      omega

theorem flip_toNat (byte : Byte) (b : Fin 8) :
    (byte ^^^ 1#8 <<< b.val).toNat = byte.toNat + 2 ^ b.val ∨
    byte.toNat = (byte ^^^ 1#8 <<< b.val).toNat + 2 ^ b.val := by
  revert byte b
  decide +kernel

def flipBit (bytes : List Byte) (p : Nat) (b : Fin 8) : List Byte := bytes.set p (bytes.getD p 0#8 ^^^ 1#8 <<< b.val)

theorem flipBit_append {rest : List Byte} {b : Fin 8} (inside : p < bytes.length) :
    flipBit (bytes ++ rest) p b = flipBit bytes p b ++ rest := by
  simp [flipBit, List.set_append_left p _ inside, List.getD_eq_getElem?_getD, List.getElem?_append_left inside]

/-- The checksum shows every single flipped bit. -/
theorem ipChecksum_flip (short : bytes.length ≤ 2 ^ 15) (inside : p < bytes.length) (b : Fin 8)
    (sum : ipChecksum bytes = 0#16) : ipChecksum (flipBit bytes p b) ≠ 0#16 := by
  have before := ipChecksum_toNat short
  rw [sum] at before
  intro zero
  have after := @ipChecksum_toNat (flipBit bytes p b) (by simpa [flipBit] using short)
  rw [zero] at after
  have moved := wordSum_set bytes p (bytes.getD p 0#8 ^^^ 1#8 <<< b.val) inside
  have power : ∀ b : Fin 8, 0 < 2 ^ b.val ∧ 2 ^ b.val < 256 := by decide
  have flipped := flip_toNat (bytes.getD p 0#8) b
  rw [flipBit] at after
  have bound := power b
  simp only [toNat_ofNat, weight] at before after moved
  split at before
  · omega
  · split at after
    · omega
    · split at moved <;> omega

section Header

variable {total id checksum : BitVec 16} {proto : Byte} {src dst : Ip}

theorem htons16_toNat (w : BitVec 16) : 256 * ((w >>> 8).setWidth 8).toNat + (w.setWidth 8 : Byte).toNat = w.toNat := by
  simp only [toNat_setWidth, BitVec.toNat_ushiftRight]
  omega

theorem ntohs16_htons16 (w : BitVec 16) : ntohs16 ((w >>> 8).setWidth 8) (w.setWidth 8) = w :=
  eq_of_toNat_eq ((ntohs16_toNat _ _).trans (htons16_toNat w))

theorem ntohl32_ipBytes (ip : Ip) :
    ntohl32 ((ip >>> 24).setWidth 8) ((ip >>> 16).setWidth 8) ((ip >>> 8).setWidth 8) (ip.setWidth 8) = ip := by
  apply eq_of_toNat_eq
  rw [ntohl32, toNat_append, Nat.shiftLeft_eq, Nat.mul_comm, ← Nat.two_pow_add_eq_or_of_lt (BitVec.isLt _),
    ntohs16_toNat, ntohs16_toNat]
  simp only [toNat_setWidth, BitVec.toNat_ushiftRight]
  omega

theorem ipHeader_length : (ipHeader total id proto src dst checksum).length = 20 := rfl

theorem ipHeader_sum :
    ipChecksum (ipHeader total id proto src dst (ipChecksum (ipHeader total id proto src dst 0#16))) = 0#16 := by
  have blank := @ipChecksum_toNat (ipHeader total id proto src dst 0#16) (by rw [ipHeader_length]; decide)
  generalize ipChecksum (ipHeader total id proto src dst 0#16) = checksum at blank ⊢
  have split : wordSum (ipHeader total id proto src dst checksum) = wordSum (ipHeader total id proto src dst 0#16) +
      checksum.toNat := by
    rw [← htons16_toNat checksum]
    simp only [ipHeader, htons16, List.cons_append, List.nil_append, wordSum]
    simp only [show ((0#16 >>> 8).setWidth 8 : Byte).toNat = 0 from rfl,
      show ((0#16).setWidth 8 : Byte).toNat = 0 from rfl]
    omega
  have some : 0 < wordSum (ipHeader total id proto src dst 0#16) := by
    exact Nat.add_pos_left (by decide) _
  apply eq_of_toNat_eq
  rw [ipChecksum_toNat (by rw [ipHeader_length]; decide)]
  rw [if_neg some.ne'] at blank
  rw [if_neg (by omega), toNat_ofNat]
  omega

end Header

/-! ## The round trip -/

section Trip

variable {modules : Nat → Module} {shares : Nat → Share} {uppers : Uppers} {drops : Drops} {hdr : Nat → Byte} {h : Heap}
  {mp : Addr} {mb : Mblk} {db : Dblk} {bytes rest : List Byte} {len : Nat} {total id checksum : BitVec 16}
  {proto : Byte} {src dst : Ip}

/-- The message goes to ip_demux with the protocol and the addresses, in one block that shows the payload. -/
def Delivered (modules : Nat → Module) (uppers : Uppers) (shares : Nat → Share) (h : Heap) (drops : Drops) (mp : Addr)
    (proto : Byte) (src dst : Ip) (payload : List Byte) : Prop :=
  ∃ hdr h₁ body, ipRput modules uppers shares h drops (some mp) =
      handUp drops (ipDemuxPut modules shares hdr mp (ipDemux uppers (protoOf hdr)) h₁) ∧
    protoOf hdr = proto ∧ srcIp hdr = src ∧ dstIp hdr = dst ∧ Message h₁ (some mp) [mp] ∧
      h₁.mblks.cells mp = some body ∧
    front (h₁.load body) body.len.toNat = payload

theorem front_getD {i : Nat} (shows : front hdr len = bytes) (inside : i < bytes.length) :
    hdr i = bytes.getD i 0#8 := by
  subst shows
  simp only [front, List.length_map, List.length_range] at inside
  simp [front, inside]

theorem front_slice {k n : Nat} (shows : front hdr len = bytes) (inside : k + n ≤ bytes.length) :
    front (fun i => hdr (k + i)) n = (bytes.drop k).take n := by
  apply List.ext_getElem
  · simp only [front, List.length_map, List.length_range, List.length_take, List.length_drop]
    omega
  · intro i below _
    have here : i < n := by simpa [front] using below
    have read := @front_getD hdr bytes len (k + i) shows (by omega)
    simp only [front, List.getElem_map, List.getElem_range, List.getElem_take, List.getElem_drop, read]
    exact (List.getElem_eq_getD 0#8).symm

theorem front_first (shows : front hdr len = bytes ++ rest) : front hdr bytes.length = bytes := by
  have slice := @front_slice hdr _ len 0 bytes.length shows (by simp)
  simpa using slice

theorem front_header (first : hdr 0 = 0x45#8) : ihlBytes hdr = 20 ∧ hdr 0 >>> 4 = 4#8 := by
  rw [ihlBytes, first]
  decide

theorem accepted_iff (first : hdr 0 = 0x45#8) (within : totalLen hdr ≤ len) (least : 20 ≤ totalLen hdr) :
    accepted len hdr = true ↔ ipChecksum (front hdr 20) = 0#16 := by
  obtain ⟨ihl, version⟩ := front_header first
  have fault : headerFault len hdr = none := by
    rw [headerFault, show ipHdrLen.toNat = 20 from rfl, if_neg, if_neg (not_not_intro version), if_neg, if_neg, if_neg]
    all_goals omega
  simp [accepted, fault, ihl]

theorem header_fields (shows : front hdr len = ipHeader total id proto src dst checksum ++ rest) :
    hdr 0 = 0x45#8 ∧ totalLen hdr = total.toNat ∧ protoOf hdr = proto ∧ srcIp hdr = src ∧ dstIp hdr = dst := by
  have read (i : Nat) (inside : i < 20) : hdr i = (ipHeader total id proto src dst checksum ++ rest).getD i 0#8 := by
    apply front_getD shows
    rw [List.length_append, ipHeader_length]
    omega
  refine ⟨read 0 (by decide), ?_, read 9 (by decide), ?_, ?_⟩
  · rw [totalLen, read 2 (by decide), read 3 (by decide)]
    exact congrArg BitVec.toNat (ntohs16_htons16 total)
  · rw [srcIp, read 12 (by decide), read 13 (by decide), read 14 (by decide), read 15 (by decide)]
    exact ntohl32_ipBytes src
  · rw [dstIp, read 16 (by decide), read 17 (by decide), read 18 (by decide), read 19 (by decide)]
    exact ntohl32_ipBytes dst

theorem Arrives.delivered {payload pad : List Byte} (arrives : Arrives h mp mb db [mp])
    (sum : ipChecksum (ipHeader (BitVec.ofNat 16 (20 + payload.length)) id proto src dst checksum) = 0#16)
    (shows : front (h.load mb) mb.len.toNat =
    ipHeader (BitVec.ofNat 16 (20 + payload.length)) id proto src dst checksum ++ payload ++ pad) :
    Delivered modules uppers shares h drops mp proto src dst payload := by
  rw [List.append_assoc] at shows
  have len := by
    simpa [front, ipHeader_length] using congrArg List.length shows
  -- the block lies in a buffer of the allocator, so the 16 bits of total_len suffice
  have small : mb.len.toNat ≤ kmallocMax := by
    have room := arrives.sound.room mb.datap db arrives.found
    have inside := arrives.inside
    rw [arrives.len]
    omega
  obtain ⟨first, total, fields⟩ := header_fields shows
  rw [toNat_ofNat, Nat.mod_eq_of_lt (by rw [kmallocMax] at small; omega)] at total
  have passed : accepted mb.len.toNat (h.load mb) = true := by
    rw [accepted_iff first (by omega) (by omega), ← ipHeader_length, front_first shows]
    exact sum
  obtain ⟨h₁, mb₁, chain₁, trimmed, handed⟩ := @Arrives.accept modules shares _ _ _ _ _ uppers drops arrives passed
  obtain ⟨load, length⟩ := trimmed.shows arrives (by omega)
  obtain ⟨ihl, -⟩ := front_header first
  have single : chain₁ = [mp] := by
    have one := trimmed.blocks
    obtain ⟨tail, rfl⟩ := trimmed.message.head_eq
    simpa using one
  subst single
  refine ⟨h.load mb, _, _, handed, fields.1, fields.2.1, fields.2.2, trimmed.message.advance,
    advance_cells trimmed.here, ?_⟩
  rw [load, length.mpr (by omega), total, ihl]
  have slice := @front_slice (h.load mb) _ _ 20 payload.length shows
    (by simp only [List.length_append, ipHeader_length]; omega)
  rw [List.drop_left' ipHeader_length, List.take_left' rfl] at slice
  rw [show payloadOf (h.load mb) = fun i => h.load mb (20 + i) from funext fun i => by rw [payloadOf, ihl],
    Nat.add_sub_cancel_left]
  exact slice

theorem Arrives.flipped (arrives : Arrives h mp mb db [mp]) (b : Fin 8) (behind : 1 ≤ p) (inside : p < 20)
    (sum : ipChecksum (ipHeader total id proto src dst checksum) = 0#16)
    (shows : front (h.load mb) mb.len.toNat = flipBit (ipHeader total id proto src dst checksum) p b ++ rest) :
    ∃ out, ipRput modules uppers shares h drops (some mp) = .ok out ∧ out.calls = [] ∧
      Harmless h drops mb [mp] out := by
  have first : h.load mb 0 = 0x45#8 := by
    rw [front_getD shows (by simp [flipBit, ipHeader_length])]
    obtain ⟨p, rfl⟩ : ∃ q, p = q + 1 := ⟨p - 1, by omega⟩
    rfl
  have refused : accepted mb.len.toNat (h.load mb) = false := by
    have differs := ipChecksum_flip (by rw [ipHeader_length]; decide) (inside.trans_eq ipHeader_length.symm) b sum
    have header := front_first shows
    rw [flipBit, List.length_set, ipHeader_length, ← flipBit] at header
    simp [accepted, (front_header first).1, header, differs]
  exact arrives.refused refused

end Trip

def showsPlain (h : Heap) : Bool :=
  arrived plainDatagram h && front (h.load (receivedBlock plainDatagram)) (receivedBlock plainDatagram).len.toNat ==
    plainDatagram

end Kappara.Net
