import Kappara.Net.Route
import Kappara.Tcp.Tcb

/-! Segments as they arrive (the first part of tcp_input_segment of
uts/os/net/tcp.c).

A segment is taken from the bytes of its first message block after the tests of
its length, header length and checksum; a checksum of zero counts as absent. -/

set_option autoImplicit false

namespace Kappara.Tcp

open Net

def ntohs16 (high low : Byte) : BitVec 16 := high ++ low

def ntohl32 (a b c d : Byte) : Word := ntohs16 a b ++ ntohs16 c d

def sumWords : List Byte → Word
  | [] => 0#32
  | [last] => (ntohs16 last 0#8).setWidth 32
  | high :: low :: rest => (ntohs16 high low).setWidth 32 + sumWords rest

def foldCarry (sum : Word) : Word :=
  if sum >>> 16 = 0#32 then sum else (sum &&& 0xffff#32) + (sum >>> 16)

def ipBytes (ip : Ip) : List Byte :=
  [(ip >>> 24).setWidth 8, (ip >>> 16).setWidth 8, (ip >>> 8).setWidth 8, ip.setWidth 8]

/-- The checksum over the pseudo-header and the segment. Two rounds fold every carry of a 32-bit sum. -/
def tcpChecksum (src dst : Ip) (seg : List Byte) : BitVec 16 :=
  let len : BitVec 16 := BitVec.ofNat 16 seg.length
  let pseudo := ipBytes src ++ ipBytes dst ++ [0#8, ipprotoTcp, (len >>> 8).setWidth 8, len.setWidth 8]
  ~~~ (foldCarry (foldCarry (sumWords pseudo + sumWords seg))).setWidth 16

theorem foldCarry_toNat (sum : Word) : (foldCarry sum).toNat = sum.toNat % 2 ^ 16 + sum.toNat / 2 ^ 16 := by
  have high : (sum >>> 16).toNat = sum.toNat / 2 ^ 16 := by
    rw [BitVec.toNat_ushiftRight, Nat.shiftRight_eq_div_pow]
  have low : (sum &&& 0xffff#32).toNat = sum.toNat % 2 ^ 16 := by
    exact Nat.and_two_pow_sub_one_eq_mod sum.toNat 16
  unfold foldCarry
  split
  next done =>
    have zero := congrArg BitVec.toNat done
    simp only [BitVec.toNat_ofNat] at zero
    omega
  next =>
    rw [BitVec.toNat_add]
    omega

/-- Two rounds leave the representative of the sum between 1 and 65535, or zero. -/
theorem foldCarry_twice (sum : Word) :
    (foldCarry (foldCarry sum)).toNat = if sum.toNat = 0 then 0 else (sum.toNat - 1) % 65535 + 1 := by
  rw [foldCarry_toNat, foldCarry_toNat]
  split <;> omega

def flagsOfByte (b : Byte) : Flags where
  fin := b.getLsbD 0
  syn := b.getLsbD 1
  rst := b.getLsbD 2
  psh := b.getLsbD 3
  ack := b.getLsbD 4
  urg := b.getLsbD 5

/-- A datagram for TCP: its addresses and the bytes of the first block of its body. -/
structure Packet where
  src : Ip
  dst : Ip
  body : List Byte
  deriving DecidableEq

/-- The segment of a datagram, or none where the source drops it before looking at any block. -/
def Packet.decode (packet : Packet) : Option Segment :=
  match packet.body with
  | s1 :: s2 :: d1 :: d2 :: q1 :: q2 :: q3 :: q4 :: a1 :: a2 :: a3 :: a4 :: off :: fl :: w1 :: w2 :: c1 :: c2 ::
      u1 :: u2 :: rest =>
    let hl := (off >>> 4).toNat * 4
    let sum := ntohs16 c1 c2
    -- The checksum field is zeroed while the sum is taken.
    let blank := s1 :: s2 :: d1 :: d2 :: q1 :: q2 :: q3 :: q4 :: a1 :: a2 :: a3 :: a4 :: off :: fl :: w1 :: w2
      :: 0#8 :: 0#8 :: u1 :: u2 :: rest
    if hl < 20 ∨ packet.body.length < hl then none
    else if sum ≠ 0#16 ∧ tcpChecksum packet.src packet.dst blank ≠ sum then none
    else some {
      srcIp := packet.src
      dstIp := packet.dst
      srcPort := ntohs16 s1 s2
      dstPort := ntohs16 d1 d2
      seq := ntohl32 q1 q2 q3 q4
      ack := ntohl32 a1 a2 a3 a4
      flags := flagsOfByte fl
      window := ntohs16 w1 w2
      options := rest.take (hl - 20)
      payload := rest.drop (hl - 20) }
  | _ => none

/-- The reset for a segment aimed at a closed port, or none where the segment is a reset itself. -/
def tcpRstClosed (seg : Segment) : Option Segment :=
  if seg.flags.rst then none
  else
    let ctl : Word := (if seg.flags.syn then 1#32 else 0#32) + if seg.flags.fin then 1#32 else 0#32
    some {
      srcIp := seg.dstIp
      dstIp := seg.srcIp
      srcPort := seg.dstPort
      dstPort := seg.srcPort
      seq := if seg.flags.ack then seg.ack else 0#32
      ack := if seg.flags.ack then 0#32 else seg.seq + seg.len + ctl
      flags := if seg.flags.ack then flagRst else { flagRst with ack := true }
      window := 0#16
      options := []
      payload := [] }

end Kappara.Tcp
