import Kappara.Lib.Links
import Kappara.Lib.Refcount
import Kappara.Lib.Run
import Kappara.Net.Route

/-! Message blocks (allocb, freeb, freemsg, dupb and dupmsg of
uts/os/io/streams.c, the types of include/kappara/io/streams.h).

A message is a chain of message blocks through b_cont; each points at a data
block, which several of them may share and which owns a buffer. The three come
from allocators of their own. An allocator answers with an address that is free
or with NULL, and its answers are given to the calls as data. The pointers into a
buffer are offsets from db_base. -/

set_option autoImplicit false

namespace Kappara.Streams

/-- PLAT_RAM_END - PLAT_RAM_BASE. -/
abbrev ramSize : Nat := 0x10000000

abbrev Addr := Fin ramSize

/-- The size above which kmalloc returns NULL. -/
def kmallocMax : Nat := 2048

def mData : Byte := 0x00#8

def mProto : Byte := 0x01#8

structure Dblk where
  base : Option Addr
  lim : Nat
  ref : BitVec 32
  type : Byte
  deriving DecidableEq

structure Mblk where
  cont : Option Addr
  rptr : Nat
  wptr : Nat
  datap : Addr
  deriving DecidableEq

structure Heap where
  mblks : Pool Addr Mblk
  dblks : Pool Addr Dblk
  bufs : Pool Addr (Nat → Byte)

/-- A freed block was used, or an allocator answered with an address that is not free. -/
inductive Fault where
  | freed
  | taken
  deriving DecidableEq

/-- The answers to the three allocations of allocb, and what the new buffer holds. -/
structure Grant where
  dblk : Option Addr
  buf : Option Addr
  mblk : Option Addr
  bytes : Nat → Byte

def Grant.possible (grant : Grant) (h : Heap) (size : Nat) : Bool :=
  grant.dblk.all (fun d => (h.dblks.cells d).isNone) &&
    grant.buf.all (fun b => (h.bufs.cells b).isNone && size ≤ kmallocMax) &&
    grant.mblk.all (fun m => (h.mblks.cells m).isNone)

section

variable (h : Heap) (mp : Addr)

def Heap.takeBuf (buf : Option Addr) (bytes : Nat → Byte) : Heap :=
  match buf with
  | none => h
  | some b => { h with bufs := h.bufs.take b bytes }

def Heap.kfree (buf : Option Addr) : Heap :=
  match buf with
  | none => h
  | some b => { h with bufs := h.bufs.drop b }

def allocb (size : Nat) (grant : Grant) : Except Fault (Heap × Option Addr) :=
  if grant.possible h size then
    match grant.dblk with
    | none => .ok (h, none)
    | some d =>
      let buf := if 0 < size then grant.buf else none
      -- The fields are written last in the source; nothing reads them before.
      let h := { h with dblks := h.dblks.take d ⟨buf, size, 1#32, mData⟩ }
      if 0 < size ∧ buf = none then
        .ok ({ h with dblks := h.dblks.drop d }, none)
      else
        let h := h.takeBuf buf grant.bytes
        match grant.mblk with
        | none =>
          let h := h.kfree buf
          .ok ({ h with dblks := h.dblks.drop d }, none)
        | some m => .ok ({ h with mblks := h.mblks.take m ⟨none, 0, 0, d⟩ }, some m)
  else .error .taken

def freeb : Option Addr → Except Fault Heap
  | none => .ok h
  | some mp =>
    match h.mblks.cells mp with
    | none => .error .freed
    | some mb =>
      match h.dblks.cells mb.datap with
      | none => .error .freed
      | some db =>
        let ref := db.ref - 1#32
        let h :=
          if ref = 0#32 then
            let h := h.kfree db.base
            { h with dblks := h.dblks.drop mb.datap }
          else { h with dblks := h.dblks.set mb.datap { db with ref := ref } }
        .ok { h with mblks := h.mblks.drop mp }

def Heap.cont : Option Addr := (h.mblks.cells mp).bind Mblk.cont

/-- The loop of freemsg; every round frees a block, so no more than ramSize rounds are made. -/
def freemsgLoop : Nat → Heap → Option Addr → Except Fault Heap
  | _, h, none => .ok h
  | 0, _, some _ => .error .freed
  | fuel + 1, h, some mp =>
    let rest := h.cont mp
    match freeb h (some mp) with
    | .error fault => .error fault
    | .ok h => freemsgLoop fuel h rest

def freemsg (mp : Option Addr) : Except Fault Heap := freemsgLoop ramSize h mp

def dupb (mp answer : Option Addr) : Except Fault (Heap × Option Addr) :=
  match mp with
  | none => .ok (h, none)
  | some mp =>
    match h.mblks.cells mp with
    | none => .error .freed
    | some mb =>
      match answer with
      | none => .ok (h, none)
      | some cp =>
        if (h.mblks.cells cp).isSome then .error .taken
        else
          match h.dblks.cells mb.datap with
          | none => .error .freed
          | some db =>
            .ok ({ h with
              mblks := h.mblks.take cp { mb with cont := none }
              dblks := h.dblks.set mb.datap { db with ref := db.ref + 1#32 } }, some cp)

def Heap.setCont (mp cont : Option Addr) : Heap :=
  match mp with
  | none => h
  | some mp =>
    match h.mblks.cells mp with
    | none => h
    | some mb => { h with mblks := h.mblks.set mp { mb with cont := cont } }

/-- The loop of dupmsg; the allocator grants the listed blocks in turn and then no more. -/
def dupmsgLoop : List Addr → Heap → Option Addr → Option Addr → Option Addr → Except Fault (Heap × Option Addr)
  | _, h, none, head, _ => .ok (h, head)
  | [], h, some mp, head, _ =>
    match dupb h (some mp) none with
    | .error fault => .error fault
    | .ok (h, _) =>
      match freemsg h head with
      | .error fault => .error fault
      | .ok h => .ok (h, none)
  | answer :: answers, h, some mp, head, tail =>
    match dupb h (some mp) (some answer) with
    | .error fault => .error fault
    | .ok (h, cp) =>
      let h := h.setCont tail cp
      dupmsgLoop answers h (h.cont mp) (head.or cp) cp

def dupmsg (mp : Option Addr) (answers : List Addr) : Except Fault (Heap × Option Addr) :=
  dupmsgLoop answers h mp none none

/-- The calls, and what the holder of a block does to it between them. -/
inductive Op where
  | allocb (size : Nat) (grant : Grant)
  | freeb (mp : Option Addr)
  | freemsg (mp : Option Addr)
  | dupb (mp answer : Option Addr)
  | dupmsg (mp : Option Addr) (answers : List Addr)
  | edit (mp : Addr) (cont : Option Addr) (rptr wptr : Nat)
  | fill (mp : Addr) (type : Byte) (bytes : Nat → Byte)

def edit (cont : Option Addr) (rptr wptr : Nat) : Except Fault Heap :=
  match h.mblks.cells mp with
  | none => .error .freed
  | some mb => .ok { h with mblks := h.mblks.set mp ⟨cont, rptr, wptr, mb.datap⟩ }

def fill (type : Byte) (bytes : Nat → Byte) : Except Fault Heap :=
  match h.mblks.cells mp with
  | none => .error .freed
  | some mb =>
    match h.dblks.cells mb.datap with
    | none => .error .freed
    | some db =>
      let bufs := match db.base with
        | none => h.bufs
        | some b => h.bufs.set b bytes
      .ok { h with dblks := h.dblks.set mb.datap { db with type := type }, bufs := bufs }

def step : Op → Option Heap
  | .allocb size grant => (allocb h size grant).toOption.map Prod.fst
  | .freeb mp => (freeb h mp).toOption
  | .freemsg mp => (freemsg h mp).toOption
  | .dupb mp answer => (dupb h mp answer).toOption.map Prod.fst
  | .dupmsg mp answers => (dupmsg h mp answers).toOption.map Prod.fst
  | .edit mp cont rptr wptr => (edit h mp cont rptr wptr).toOption
  | .fill mp type bytes => (fill h mp type bytes).toOption

end

def Heap.empty : Heap := ⟨.empty, .empty, .empty⟩

end Kappara.Streams
