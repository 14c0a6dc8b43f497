import Kappara.Lib.Run
import Kappara.Net.Route
import Kappara.Streams.Putq

/-! One direction of a pipe (sys_pipe_impl, stream_write, sh_rq_putp,
stream_read and stream_close of uts/os/io/stream_head.c; getq, putq and putbq of
uts/os/io/streams.c).

One thread reads at one end; any threads write at the other, which each of them
has a descriptor of. A step is what a call does under sd_readwait.sq_lock or
between two holdings of it. A message is its chain of blocks, and a block its
bytes from b_rptr to b_wptr. Allocations succeed. -/

set_option autoImplicit false

namespace Kappara.Pipes

open List (append_assoc append_nil flatten_append flatten_cons)

/-- Where the reading thread stands in stream_read. -/
inductive Reader where
  | idle
  | looking (len : Nat)
  | sleeping (len : Nat)
  | holding (len : Nat) (mp : List (List Byte))
  | leftover (out : List Byte) (cur : List (List Byte))
  deriving DecidableEq

/-- The read queue and the flags of the reading end; the threads with a descriptor of the writing end
and the message each has built and not yet put. The reads that returned and the writes are recorded. -/
structure Pipe (W : Type) where
  rq : List (List (List Byte))
  eof : Bool
  reader : Reader
  ends : Finset W
  building : W → Option (List Byte)
  results : List (List Byte)
  written : List (List Byte)

/-- The copy loop with room for len bytes: what it copies, and the chain from cur on. -/
def copyLoop (len : Nat) : List (List Byte) → List Byte × List (List Byte)
  | [] => ([], [])
  | cur :: cont =>
    if 0 < len then
      let n := min cur.length len
      if n = cur.length then
        let (out, left) := copyLoop (len - n) cont
        (cur ++ out, left)
      else (cur.take n, cur.drop n :: cont)
    else ([], cur :: cont)

section Steps

variable {W : Type} [DecidableEq W]

section

variable (s : Pipe W)

def Pipe.result (out : List Byte) : Pipe W :=
  { s with reader := .idle, results := s.results ++ [out] }

/-- Under the lock: getq, and the test of SD_EOF when it finds nothing. -/
def look (len : Nat) : Pipe W :=
  match s.rq with
  | mp :: rest => { s with rq := rest, reader := .holding len mp }
  | [] => if s.eof then s.result [] else { s with reader := .sleeping len }

/-- Without the lock: the copy, and freemsg when the whole chain is drained. -/
def copy (len : Nat) (mp : List (List Byte)) : Pipe W :=
  match copyLoop len mp with
  | (out, []) => s.result out
  | (out, cur) => { s with reader := .leftover out cur }

def putbq (out : List Byte) (cur : List (List Byte)) : Pipe W :=
  { s with rq := cur :: s.rq }.result out

/-- sh_rq_putp of the reading end for an M_DATA message; from here on the write can only return its length. -/
def shRqPutp (w : W) (data : List Byte) : Pipe W :=
  { s with rq := s.rq ++ [[data]], building := Function.update s.building w none, written := s.written ++ [data] }

/-- The last descriptor of the writing end closes it. -/
def close (w : W) : Pipe W :=
  let ends := s.ends.erase w
  { s with ends, eof := s.eof || ends = ∅ }

inductive Op (W : Type) where
  | read (len : Nat)
  | look
  | wake
  | signal
  | copy
  | putbq
  | write (w : W) (data : List Byte)
  | put (w : W)
  | close (w : W)

def step : Op W → Option (Pipe W)
  | .read len => if s.reader = .idle then some { s with reader := .looking len } else none
  | .look =>
    match s.reader with
    | .looking len => some (look s len)
    | _ => none
  | .wake =>
    match s.reader with
    | .sleeping len => some { s with reader := .looking len }
    | _ => none
  | .signal =>
    -- A pending fatal signal is tested before and after the sleep; the read returns -1.
    match s.reader with
    | .sleeping _ => some { s with reader := .idle }
    | _ => none
  | .copy =>
    match s.reader with
    | .holding len mp => some (copy s len mp)
    | _ => none
  | .putbq =>
    match s.reader with
    | .leftover out cur => some (putbq s out cur)
    | _ => none
  | .write w data =>
    if w ∈ s.ends ∧ s.building w = none then
      some { s with building := Function.update s.building w (some data) }
    else none
  | .put w =>
    match s.building w with
    | some data => some (shRqPutp s w data)
    | none => none
  | .close w => if w ∈ s.ends ∧ s.building w = none then some (close s w) else none

end

def fair (_ : Pipe W) : Op W → Prop
  | .read len => 0 < len
  | .write _ data => 1 ≤ data.length ∧ data.length ≤ 2048
  | _ => True

/-- After sys_pipe_impl; the descriptor of the writing end may have been inherited. -/
structure Opened (s : Pipe W) : Prop where
  rq : s.rq = []
  eof : s.eof = false
  reader : s.reader = .idle
  ends : s.ends ≠ ∅
  building : ∀ w, s.building w = none
  results : s.results = []
  written : s.written = []

end Steps

/-- The loop copies the first bytes of the chain and leaves the others. -/
theorem copyLoop_append (len : Nat) (mp : List (List Byte)) :
    (copyLoop len mp).1 ++ (copyLoop len mp).2.flatten = mp.flatten := by
  induction mp generalizing len with
  | nil => rfl
  | cons cur cont ih =>
    rw [copyLoop]
    split
    · simp only
      split
      · simp [append_assoc, ih, flatten_cons]
      · simp [flatten_cons, ← append_assoc, List.take_append_drop]
    · rfl

/-- Every block holds a byte, so that a positive length copies one. -/
def Filled (mp : List (List Byte)) : Prop := mp ≠ [] ∧ ∀ block ∈ mp, block ≠ []

variable {mp : List (List Byte)} {len : Nat} {rq : List (List (List Byte))}

theorem copyLoop_filled (len : Nat) (filled : ∀ block ∈ mp, block ≠ []) :
    ∀ block ∈ (copyLoop len mp).2, block ≠ [] := by
  induction mp generalizing len with
  | nil => exact filled
  | cons cur cont ih =>
    obtain ⟨first, others⟩ := List.forall_mem_cons.mp filled
    rw [copyLoop]
    split
    · simp only
      split
      · exact ih _ others
      next short =>
        refine List.forall_mem_cons.mpr ⟨fun eq => ?_, others⟩
        have := congrArg List.length eq
        simp only [List.length_drop, List.length_nil] at this
        omega
    · exact filled

theorem copyLoop_ne_nil (room : 0 < len) (filled : Filled mp) : (copyLoop len mp).1 ≠ [] := by
  obtain ⟨some_, filled⟩ := filled
  cases mp with
  | nil => exact absurd rfl some_
  | cons cur cont =>
    have first := List.length_pos_iff.mpr (filled cur List.mem_cons_self)
    rw [copyLoop, if_pos room]
    simp only
    split
    · exact List.append_ne_nil_of_left_ne_nil (List.length_pos_iff.mp first) _
    · apply List.length_pos_iff.mp
      rw [List.length_take]
      omega

section Order

variable {W : Type} {s s' : Pipe W}

/-- The bytes the reading thread has taken off the queue and not returned. -/
def Reader.held : Reader → List Byte
  | .holding _ mp => mp.flatten
  | .leftover out cur => out ++ cur.flatten
  | _ => []

/-- A read asks for a byte at least, and what it holds has one to return. -/
def Reader.Able : Reader → Prop
  | .idle => True
  | .looking len | .sleeping len => 0 < len
  | .holding len mp => 0 < len ∧ Filled mp
  | .leftover out cur => out ≠ [] ∧ Filled cur

/-- The bytes returned, held and queued are those written; a write is under way only at an open end,
and a read has returned zero only at the end of them all. -/
structure Inv (s : Pipe W) : Prop where
  bytes : s.results.flatten ++ (s.reader.held ++ s.rq.flatten.flatten) = s.written.flatten
  able : s.reader.Able
  queued : ∀ mp ∈ s.rq, Filled mp
  sized : ∀ w data, s.building w = some data → w ∈ s.ends ∧ data ≠ []
  closed : s.eof = true → s.ends = ∅
  zero : [] ∈ s.results → s.ends = ∅ ∧ s.results.flatten = s.written.flatten

theorem Opened.inv (opened : Opened s) : Inv s where
  bytes := by rw [opened.results, opened.reader, opened.rq, opened.written]; rfl
  able := by rw [opened.reader]; trivial
  queued := by rw [opened.rq]; exact fun _ member => absurd member List.not_mem_nil
  sized := fun w data eq => by rw [opened.building] at eq; cases eq
  closed := fun eof => by rw [opened.eof] at eof; cases eof
  zero := fun zero => by rw [opened.results] at zero; cases zero

section

variable (inv : Inv s)
include inv

theorem Inv.drained (zero : [] ∈ s.results) : s.reader.held ++ s.rq.flatten.flatten = [] := by
  have bytes := inv.bytes
  rw [← (inv.zero zero).2] at bytes
  exact List.append_cancel_left (bytes.trans (append_nil _).symm)

/-- The reading thread moves on with the same bytes before it. -/
theorem Inv.move {reader : Reader} (able : reader.Able) (queued : ∀ mp ∈ rq, Filled mp)
    (same : reader.held ++ rq.flatten.flatten = s.reader.held ++ s.rq.flatten.flatten) : Inv { s with reader, rq } :=
  { inv with bytes := by rw [← inv.bytes, ← same], able, queued }

theorem Inv.result {out : List Byte} (some_ : out ≠ []) (queued : ∀ mp ∈ rq, Filled mp)
    (same : out ++ rq.flatten.flatten = s.reader.held ++ s.rq.flatten.flatten) : Inv ({ s with rq }.result out) where
  bytes := by
    show (s.results ++ [out]).flatten ++ ([] ++ rq.flatten.flatten) = s.written.flatten
    rw [flatten_append, List.flatten_singleton, List.nil_append, append_assoc, same, inv.bytes]
  able := trivial
  queued := queued
  sized := inv.sized
  closed := inv.closed
  zero := fun zero => by
    rcases List.mem_append.mp zero with earlier | now
    · rw [inv.drained earlier] at same
      exact absurd (List.append_eq_nil_iff.mp same).1 some_
    · exact absurd (List.mem_singleton.mp now).symm some_

theorem Inv.look (here : s.reader = .looking len) : Inv (Pipes.look s len) := by
  have room : 0 < len := by
    have able := inv.able
    rwa [here] at able
  cases queue : s.rq with
  | cons mp rest =>
    have eq : Pipes.look s len = { s with rq := rest, reader := .holding len mp } := by rw [Pipes.look, queue]
    obtain ⟨first, others⟩ := List.forall_mem_cons.mp (queue ▸ inv.queued)
    rw [eq]
    refine inv.move ⟨room, first⟩ others ?_
    rw [here, queue, flatten_cons, flatten_append]
    rfl
  | nil =>
    cases eof : s.eof with
    | false =>
      have eq : Pipes.look s len = { s with reader := .sleeping len } := by
        rw [Pipes.look, queue]
        exact if_neg (by rw [eof]; decide)
      rw [eq]
      refine inv.move room inv.queued ?_
      rw [here]
      rfl
    | true =>
      have eq : Pipes.look s len = s.result [] := by
        rw [Pipes.look, queue]
        exact if_pos eof
      have all : s.results.flatten = s.written.flatten := by
        rw [← inv.bytes, here, queue]
        exact (append_nil _).symm
      have more : (s.results ++ [[]]).flatten = s.results.flatten := by
        rw [flatten_append]
        exact append_nil _
      rw [eq]
      exact {
        bytes := by
          show (s.results ++ [[]]).flatten ++ ([] ++ s.rq.flatten.flatten) = s.written.flatten
          rw [more, all, queue]
          exact append_nil _
        able := trivial
        queued := inv.queued
        sized := inv.sized
        closed := inv.closed
        zero := fun _ => ⟨inv.closed eof, more.trans all⟩ }

theorem Inv.copy (here : s.reader = .holding len mp) : Inv (Pipes.copy s len mp) := by
  have able := inv.able
  rw [here] at able
  obtain ⟨room, filled⟩ := able
  have bytes := copyLoop_append len mp
  have left := copyLoop_filled len filled.2
  have got := copyLoop_ne_nil room filled
  rw [Pipes.copy]
  cases copied : copyLoop len mp with
  | mk out cur =>
    rw [copied] at bytes left got
    cases cur with
    | nil =>
      refine inv.result got inv.queued ?_
      rw [here, ← append_nil out]
      exact congrArg (· ++ s.rq.flatten.flatten) bytes
    | cons cur cont =>
      refine inv.move ⟨got, List.cons_ne_nil _ _, left⟩ inv.queued ?_
      rw [here]
      exact congrArg (· ++ s.rq.flatten.flatten) bytes

theorem Inv.putbq {out : List Byte} {cur : List (List Byte)} (here : s.reader = .leftover out cur) :
    Inv (Pipes.putbq s out cur) := by
  have able := inv.able
  rw [here] at able
  refine inv.result able.1 (List.forall_mem_cons.mpr ⟨able.2, inv.queued⟩) ?_
  rw [here, flatten_cons, flatten_append, ← append_assoc]
  rfl

end

variable [DecidableEq W]

/-- A message goes behind all others; the writing end is open, so no read has returned zero. -/
theorem Inv.put (inv : Inv s) {w : W} {data : List Byte} (built : s.building w = some data) :
    Inv (shRqPutp s w data) := by
  obtain ⟨member, some_⟩ := inv.sized w data built
  have filled : Filled [data] := ⟨List.cons_ne_nil _ _, fun block member => by rwa [List.mem_singleton.mp member]⟩
  exact {
    bytes := by
      show s.results.flatten ++ (s.reader.held ++ (s.rq ++ [[data]]).flatten.flatten) = (s.written ++ [data]).flatten
      rw [flatten_append, flatten_append, flatten_append, ← inv.bytes]
      simp only [List.flatten_singleton, append_assoc]
    able := inv.able
    queued := fun mp member => (List.mem_append.mp member).elim (inv.queued mp) fun last => by
      rwa [List.mem_singleton.mp last]
    sized := fun w' data' eq => by
      rcases Function.update_cases eq with ⟨-, ⟨⟩⟩ | ⟨-, eq⟩
      exact inv.sized w' data' eq
    closed := inv.closed
    zero := fun zero => absurd (inv.zero zero).1 (Finset.ne_empty_of_mem member) }

theorem Inv.write (inv : Inv s) {w : W} {data : List Byte} (member : w ∈ s.ends) (size : 1 ≤ data.length) :
    Inv { s with building := Function.update s.building w (some data) } :=
  { inv with
    sized := fun w' data' eq => by
      rcases Function.update_cases eq with ⟨rfl, ⟨⟩⟩ | ⟨-, eq⟩
      · exact ⟨member, List.length_pos_iff.mp size⟩
      · exact inv.sized w' data' eq }

/-- The thread that closes its descriptor is not inside a write. -/
theorem Inv.close (inv : Inv s) {w : W} (done : s.building w = none) : Inv (Pipes.close s w) where
  bytes := inv.bytes
  able := inv.able
  queued := inv.queued
  sized := fun w' data eq => by
    obtain ⟨member, size⟩ := inv.sized w' data eq
    refine ⟨Finset.mem_erase.mpr ⟨fun same => ?_, member⟩, size⟩
    rw [same] at eq
    exact absurd (done.symm.trans eq) (by simp)
  closed := fun eof => by
    rcases (Bool.or_eq_true _ _).mp eof with before | now
    · show s.ends.erase w = ∅
      rw [inv.closed before, Finset.erase_empty]
    · exact of_decide_eq_true now
  zero := fun zero => by
    obtain ⟨none_, all⟩ := inv.zero zero
    exact ⟨by show s.ends.erase w = ∅; rw [none_, Finset.erase_empty], all⟩

theorem Inv.step {op : Op W} (inv : Inv s) (allowed : fair s op) (made : step s op = some s') : Inv s' := by
  cases op with
  | read len =>
    obtain ⟨here, ⟨⟩⟩ := Option.ite_none_right_eq_some.mp made
    refine inv.move allowed inv.queued ?_
    rw [here]
    rfl
  | look =>
    cases here : s.reader with
    | looking len =>
      rw [Pipes.step, here] at made
      cases made
      exact inv.look here
    | _ => rw [Pipes.step, here] at made; cases made
  | wake =>
    cases here : s.reader with
    | sleeping len =>
      rw [Pipes.step, here] at made
      cases made
      have able := inv.able
      rw [here] at able
      refine inv.move able inv.queued ?_
      rw [here]
      rfl
    | _ => rw [Pipes.step, here] at made; cases made
  | signal =>
    cases here : s.reader with
    | sleeping len =>
      rw [Pipes.step, here] at made
      cases made
      refine inv.move trivial inv.queued ?_
      rw [here]
      rfl
    | _ => rw [Pipes.step, here] at made; cases made
  | copy =>
    cases here : s.reader with
    | holding len mp =>
      rw [Pipes.step, here] at made
      cases made
      exact inv.copy here
    | _ => rw [Pipes.step, here] at made; cases made
  | putbq =>
    cases here : s.reader with
    | leftover out cur =>
      rw [Pipes.step, here] at made
      cases made
      exact inv.putbq here
    | _ => rw [Pipes.step, here] at made; cases made
  | write w data =>
    obtain ⟨open_, ⟨⟩⟩ := Option.ite_none_right_eq_some.mp made
    exact inv.write open_.1 allowed.1
  | put w =>
    rw [Pipes.step] at made
    cases built : s.building w with
    | none => rw [built] at made; cases made
    | some data =>
      rw [built] at made
      cases made
      exact inv.put built
  | close w =>
    obtain ⟨open_, ⟨⟩⟩ := Option.ite_none_right_eq_some.mp made
    exact inv.close open_.2

/-- What reads have returned is the beginning of what was written, in the order of the writes, and a
read returns zero only when the writing end is closed and all of it was returned. -/
theorem pipe_reads_written (s : Pipe W) (reached : Run.Reach step fair Opened s) :
    s.results.flatten <+: s.written.flatten ∧
    ([] ∈ s.results → s.ends = ∅ ∧ s.results.flatten = s.written.flatten) := by
  have inv : Inv s := reached.invariant (fun _ opened => opened.inv) fun _ _ _ inv allowed made => inv.step allowed made
  exact ⟨⟨_, inv.bytes⟩, inv.zero⟩

theorem step_moves {op : Op W} (made : step s op = some s') : Putq.Moves s.rq s'.rq := by
  have looked (len : Nat) : Putq.Moves s.rq (Pipes.look s len).rq := by
    rw [Pipes.look]
    split
    next queued => rw [queued]; exact .getq
    · split <;> exact .stay
  have copied (len : Nat) (mp : List (List Byte)) : Putq.Moves s.rq (Pipes.copy s len mp).rq := by
    rw [Pipes.copy]
    split <;> exact .stay
  cases op <;> simp only [step] at made <;> split at made <;> cases made
  all_goals first | exact .stay | exact .putq _ | exact .putbq _ | exact looked _ | exact copied _ _

theorem rq_carried (reached : Run.Reach step fair Opened s) : Putq.Carries s.rq :=
  Putq.carries_of_moves Pipe.rq (fun _ opened => opened.rq) (fun _ _ _ => step_moves) reached

end Order

instance {W : Type} (s : Pipe W) (op : Op W) : Decidable (fair s op) :=
  match op with
  | .read _ => inferInstanceAs (Decidable (_ < _))
  | .write _ _ => inferInstanceAs (Decidable (_ ∧ _))
  | .look | .wake | .signal | .copy | .putbq | .put _ | .close _ => inferInstanceAs (Decidable True)

def opened : Pipe (Fin 2) := ⟨[], false, .idle, Finset.univ, fun _ => none, [], []⟩

theorem opened_opened : Opened opened := ⟨rfl, rfl, rfl, by decide, fun _ => rfl, rfl, rfl⟩

/-- Two threads write, the second while the reader holds the message of the first, and both close. -/
theorem pipe_reads_written_run : ∃ s : Pipe (Fin 2), Run.Reach step fair Opened s ∧
    s.results = [[1#8, 2#8], [3#8], [4#8], []] ∧ s.results.flatten <+: s.written.flatten ∧
    s.results.flatten = s.written.flatten := by
  obtain ⟨s, reached, results, reads⟩ := Run.Reach.found_with (P := fun s => s.results = [[1#8, 2#8], [3#8], [4#8], []])
    pipe_reads_written
    [.write 0 [1#8, 2#8, 3#8], .write 1 [4#8], .put 0, .read 2, .look, .put 1, .close 0, .close 1, .copy, .putbq,
      .read 9, .look, .copy, .read 1, .look, .copy, .read 5, .look] opened_opened (by decide +kernel)
  exact ⟨s, reached, results, reads.1, (reads.2 (by rw [results]; decide)).2⟩

end Kappara.Pipes
