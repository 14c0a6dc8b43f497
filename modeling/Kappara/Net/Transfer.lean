import Kappara.Net.Telnet

/-! Transfers of files (cmd_retr and cmd_stor of cmd/ftpd.c over regfile_read and regfile_write
of uts/os/fs/kfs.c): the replies on the control connection and what went to the data connection
or into the file. The outcomes of the calls are inputs. -/

set_option autoImplicit false

namespace Kappara.Ftp

open Telnet (Ind)

/-- The rest of one block at most, from the rest of the file. -/
def regfileRead (pos : Nat) (file : List Byte) (device : Bool) : Option (List Byte) :=
  if file = [] then some [] else if device then some (file.take (512 - pos % 512)) else none

/-- What is handed over by the end of the loop; for each round, whether the device can be read and
whether putmsg succeeds. -/
def retrLoop (pos : Nat) (file : List Byte) : List (Bool × Bool) → Option (List Byte)
  | [] => none
  | (device, put) :: rounds =>
    match regfileRead pos file device with
    | none => some []
    | some buf =>
      if buf = [] ∨ !put then some [] else (retrLoop (pos + buf.length) (file.drop buf.length) rounds).map (buf ++ ·)

def cmdRetr (named opened accepted : Bool) (file : List Byte) (rounds : List (Bool × Bool)) :
    Option (List Nat × List Byte) :=
  if !named then some ([501], [])
  else if !opened then some ([550], [])
  else if !accepted then some ([150, 425], [])
  else (retrLoop 0 file rounds).map ([150, 226], ·)

/-- A new file has 64 blocks; the device may take fewer bytes. -/
def regfileWrite (file buf : List Byte) (device : Nat) : List Byte :=
  file ++ (buf.take (64 * 512 - file.length)).take device

/-- The outcomes of one round: the bytes the device takes, and whether stream_getmsg can copy the control part for
what it puts back. -/
structure Round where
  device : Nat
  copied : Bool

/-- stream_getmsg puts back what did not fit into the buffer, or drops it. -/
def putBack (round : Round) (block : List Byte) (queue : List Ind) : List Ind :=
  if 4096 < block.length ∧ round.copied then .data (block.drop 4096) :: queue else queue

/-- The file at the end of the loop. A failed getmsg, with nothing left in the queue, ends it like a disconnect. -/
def storLoop (file : List Byte) : List Ind → List Round → Option (List Byte)
  | _, [] => none
  | [], _ => none
  | .data block :: queue, round :: rounds =>
    storLoop (regfileWrite file (block.take 4096) round.device) (putBack round block queue) rounds
  | .other :: queue, _ :: rounds => storLoop file queue rounds
  | .ordrel :: _, _ => some file
  | .discon :: _, _ => some file

def cmdStor (named home created opened accepted : Bool) (queue : List Ind) (rounds : List Round) :
    Option (List Nat × List Byte) :=
  if !named then some ([501], [])
  else if !home then some ([553], [])
  else if !(created && opened) then some ([550], [])
  else if !accepted then some ([150, 425], [])
  else (storLoop [] queue rounds).map ([150, 226], ·)

/-- The bytes the client sends before it closes the connection in order. -/
def sentInOrder : List Ind → Option (List Byte)
  | .data block :: rest => (sentInOrder rest).map (block ++ ·)
  | .other :: rest => sentInOrder rest
  | .ordrel :: _ => some []
  | _ => none

/-- What is read of the block fits into the rest of the file and is taken by the device, and what exceeds the buffer
can be put back. -/
def Kept (room : Nat) (block : List Byte) (round : Round) : Prop :=
  min 4096 block.length ≤ room ∧ min 4096 block.length ≤ round.device ∧ (block.length ≤ 4096 ∨ round.copied)

/-- Every block is kept, and the connection is closed in order. -/
def Whole (room : Nat) : List Ind → List Round → Prop
  | .data block :: queue, round :: rounds =>
    Kept room block round ∧ Whole (room - min 4096 block.length) (putBack round block queue) rounds
  | .other :: queue, _ :: rounds => Whole room queue rounds
  | .ordrel :: _, _ => True
  | _, _ => False

/-- A read at the start of a block takes the block or the rest of the file, so that the loop makes one round for
each. -/
theorem retrLoop_whole {pos : Nat} {file : List Byte} {rounds : List (Bool × Bool)} {handed : List Byte}
    (start : pos % 512 = 0 ∨ file = []) (ended : retrLoop pos file rounds = some handed) :
    handed = file ↔ ∀ round ∈ rounds.take ((file.length + 511) / 512), round = (true, true) := by
  induction rounds generalizing pos file handed with
  | nil => cases ended
  | cons round rounds ih =>
    by_cases nothing : file = []
    · simp_all [retrLoop, regfileRead]
    have aligned := start.resolve_right nothing
    have more : (file.length + 511) / 512 = ((file.drop 512).length + 511) / 512 + 1 := by
      have := List.length_pos_iff.mpr nothing
      rw [List.length_drop]
      omega
    rw [more, List.take_succ_cons, List.forall_mem_cons]
    by_cases works : round = (true, true)
    · have buf : file.take 512 ≠ [] := by simp [nothing]
      simp only [works, retrLoop, regfileRead, nothing, aligned, buf, Nat.sub_zero, Bool.not_true, Bool.false_eq_true,
        or_self, if_false, if_true, Option.map_eq_some_iff] at ended
      obtain ⟨rest, ended, rfl⟩ := ended
      have dropped : file.drop (file.take 512).length = file.drop 512 := by
        rcases Nat.le_total file.length 512 with short | long
        · rw [List.take_of_length_le short, List.drop_length, List.drop_of_length_le short]
        · rw [List.length_take_of_le long]
      rw [dropped] at ended
      have next : (pos + (file.take 512).length) % 512 = 0 ∨ file.drop 512 = [] := by
        rw [List.length_take, List.drop_eq_nil_iff]
        omega
      rw [and_iff_right works, ← ih next ended]
      nth_rewrite 2 [← List.take_append_drop 512 file]
      exact List.append_right_inj _
    · have stopped : handed = [] := by
        obtain ⟨device, put⟩ := round
        grind [retrLoop, regfileRead]
      rw [stopped]
      exact iff_of_false (Ne.symm nothing) fun all => works all.1

theorem regfileWrite_length {file buf : List Byte} {device : Nat} :
    (regfileWrite file buf device).length = file.length + min device (min (64 * 512 - file.length) buf.length) := by
  simp [regfileWrite]

theorem regfileWrite_whole {file buf : List Byte} {device : Nat} (room : buf.length ≤ 64 * 512 - file.length)
    (taken : buf.length ≤ device) : regfileWrite file buf device = file ++ buf := by
  rw [regfileWrite, List.take_of_length_le room, List.take_of_length_le taken]

/-- What the client sends in order, from what is put back on. -/
theorem sentInOrder_putBack {round : Round} {block : List Byte} {queue : List Ind}
    (back : block.length ≤ 4096 ∨ round.copied) :
    sentInOrder (.data block :: queue) = (sentInOrder (putBack round block queue)).map (block.take 4096 ++ ·) := by
  unfold putBack
  split
  · rw [sentInOrder, sentInOrder, Option.map_map]
    congr 1
    funext rest
    rw [Function.comp_apply, ← List.append_assoc, List.take_append_drop]
  next short =>
    rw [sentInOrder, List.take_of_length_le (by grind)]

theorem sentInOrder_behind {round : Round} {block rest : List Byte} {queue : List Ind}
    (later : sentInOrder queue = some rest) : ∃ back, sentInOrder (putBack round block queue) = some back ∧
      back.length = rest.length + if 4096 < block.length ∧ round.copied then block.length - 4096 else 0 := by
  unfold putBack
  split
  · refine ⟨block.drop 4096 ++ rest, by rw [sentInOrder, later]; rfl, ?_⟩
    rw [List.length_append, List.length_drop, Nat.add_comm]
  · exact ⟨rest, later, rfl⟩

/-- The file never gets more than what is sent. -/
theorem storLoop_length {file : List Byte} {queue : List Ind} {rounds : List Round} {stored sent : List Byte}
    (ended : storLoop file queue rounds = some stored) (all : sentInOrder queue = some sent) :
    stored.length ≤ file.length + sent.length := by
  fun_induction storLoop file queue rounds generalizing sent with
  | case1 => cases ended
  | case2 => cases ended
  | case3 file block queue round rounds ih =>
    rw [sentInOrder, Option.map_eq_some_iff] at all
    obtain ⟨rest, later, rfl⟩ := all
    obtain ⟨back, behind, length⟩ := @sentInOrder_behind round block _ _ later
    have most := ih ended behind
    rw [regfileWrite_length, List.length_take] at most
    rw [List.length_append]
    split at length <;> omega
  | case4 file queue round rounds ih => exact ih ended all
  | case5 =>
    cases ended
    exact Nat.le_add_right ..
  | case6 => cases all

theorem storLoop_whole {file : List Byte} {queue : List Ind} {rounds : List Round} {stored : List Byte}
    (ended : storLoop file queue rounds = some stored) :
    (sentInOrder queue).map (file ++ ·) = some stored ↔ Whole (64 * 512 - file.length) queue rounds := by
  fun_induction storLoop file queue rounds with
  | case1 => cases ended
  | case2 => cases ended
  | case3 file block queue round rounds ih =>
    rw [Whole]
    by_cases kept : Kept (64 * 512 - file.length) block round
    · obtain ⟨room, taken, back⟩ := id kept
      rw [← List.length_take] at room taken
      have whole := ih ended
      rw [regfileWrite_whole room taken, List.length_append, List.length_take, ← Nat.sub_sub] at whole
      rw [and_iff_right kept, ← whole, sentInOrder_putBack back, Option.map_map]
      simp only [Function.comp_def, List.append_assoc]
    · -- a byte is lost, and what comes later is too short to make up for it
      refine iff_of_false (fun equal => kept ?_) fun whole => kept whole.1
      rw [sentInOrder, Option.map_map, Option.map_eq_some_iff] at equal
      obtain ⟨rest, later, rfl⟩ := equal
      obtain ⟨back, behind, length⟩ := @sentInOrder_behind round block _ _ later
      have most := storLoop_length ended behind
      rw [regfileWrite_length, List.length_take] at most
      simp only [Function.comp_apply, List.length_append] at most
      unfold Kept
      split at length
      next again => exact ⟨by omega, by omega, .inr again.2⟩
      next => exact ⟨by omega, by omega, .inl (by omega)⟩
  | case4 file queue round rounds ih => exact ih ended
  | case5 =>
    cases ended
    simp [sentInOrder, Whole]
  | case6 => simp [sentInOrder, Whole]

end Kappara.Ftp
