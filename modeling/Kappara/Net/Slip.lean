import Kappara.Lib.Loops

/-! SLIP framing (slip_wq_putp, slip_rq_putp, slip_append and slip_deliver_frame of
uts/os/net/slip.c). A message is the list of the bytes of its blocks. Whether allocb
has a block for the next frame is an input. -/

set_option autoImplicit false

namespace Kappara.Slip

open Loops (feed feed_append feed_flatten)

def slipEnd : Byte := 0xC0#8

def slipEsc : Byte := 0xDB#8

def slipEscEnd : Byte := 0xDC#8

def slipEscEsc : Byte := 0xDD#8

def slipMtu : Nat := 296

/-- What slip_wq_putp writes for a byte. -/
def stuff (c : Byte) : List Byte :=
  if c = slipEnd then [slipEsc, slipEscEnd] else if c = slipEsc then [slipEsc, slipEscEsc] else [c]

/-- The block that goes down to the line. -/
def slipWqPutp (mp : List (List Byte)) : List Byte := slipEnd :: (mp.flatten.flatMap stuff ++ [slipEnd])

/-- The frame is NULL where allocb failed. -/
structure SlipState where
  frame : Option (List Byte)
  inEsc : Bool
  deriving DecidableEq

/-- A frame shorter than an IPv4 header is dropped. -/
def slipDeliverFrame (granted : Bool) (s : SlipState) : SlipState × List (List Byte) :=
  ({ s with frame := if granted then some [] else none }, s.frame.toList.filter (20 ≤ ·.length))

/-- A byte that does not fit discards the frame. -/
def slipAppend (s : SlipState) (c : Byte) : SlipState :=
  { s with frame := s.frame.map fun bytes => if slipMtu ≤ bytes.length then [] else bytes ++ [c] }

/-- The body of the loop of slip_rq_putp, with the frames that go up. -/
def rqByte (granted : Bool) (s : SlipState) (c : Byte) : SlipState × List (List Byte) :=
  if s.inEsc then
    let c := if c = slipEscEnd then slipEnd else if c = slipEscEsc then slipEsc else c
    ({ slipAppend s c with inEsc := false }, [])
  else if c = slipEnd then
    if s.frame.any (· ≠ []) then slipDeliverFrame granted s else (s, [])
  else if c = slipEsc then ({ s with inEsc := true }, [])
  else (slipAppend s c, [])

def slipRqPutp (granted : Bool) (s : SlipState) (mp : List (List Byte)) : SlipState × List (List Byte) :=
  feed (feed (rqByte granted)) s mp

def appended (bytes data : List Byte) : List Byte :=
  data.foldl (fun bytes c => if slipMtu ≤ bytes.length then [] else bytes ++ [c]) bytes

def idle : SlipState := ⟨some [], false⟩

section RoundTrip

variable {bytes : List Byte}

theorem rqByte_stuff (frame : Option (List Byte)) (c : Byte) :
    feed (rqByte true) ⟨frame, false⟩ (stuff c) = (⟨frame.map (appended · [c]), false⟩, []) := by
  unfold stuff
  split
  next same => simp [same, feed, rqByte, slipAppend, appended, slipEnd, slipEsc]
  next notEnd =>
    split
    next same => simp [same, feed, rqByte, slipAppend, appended, slipEnd, slipEsc, slipEscEnd, slipEscEsc]
    next notEsc => simp [feed, rqByte, slipAppend, appended, notEnd, notEsc]

theorem rqByte_stuffed (frame : Option (List Byte)) (data : List Byte) :
    feed (rqByte true) ⟨frame, false⟩ (data.flatMap stuff) = (⟨frame.map (appended · data), false⟩, []) := by
  induction data generalizing frame with
  | nil => cases frame <;> rfl
  | cons c rest ih =>
    rw [List.flatMap_cons, feed_append, rqByte_stuff, ih, Option.map_map]
    rfl

theorem appended_fits {data : List Byte} (room : bytes.length + data.length ≤ slipMtu) :
    appended bytes data = bytes ++ data := by
  induction data generalizing bytes with
  | nil => exact (List.append_nil bytes).symm
  | cons c rest ih =>
    rw [List.length_cons] at room
    have next := @ih (bytes ++ [c]) (by rw [List.length_append, List.length_singleton]; omega)
    rw [List.append_assoc] at next
    unfold appended at next ⊢
    rwa [List.foldl_cons, if_neg (by omega)]

/-- The first END finds no bytes; the second delivers those between. -/
theorem rqByte_frame (mp : List (List Byte)) (least : 20 ≤ mp.flatten.length) (most : mp.flatten.length ≤ slipMtu) :
    feed (rqByte true) idle (slipWqPutp mp) = (idle, [mp.flatten]) := by
  have begins : rqByte true idle slipEnd = (idle, []) := by decide
  unfold slipWqPutp
  generalize mp.flatten = data at least most
  have any : data ≠ [] := List.ne_nil_of_length_pos (by omega)
  rw [feed, begins, feed_append, idle, rqByte_stuffed, Option.map_some, appended_fits (by simpa using most)]
  simp [feed, rqByte, slipDeliverFrame, any, least]

theorem rqByte_frames {frames : List (List (List Byte))}
    (sizes : ∀ mp ∈ frames, 20 ≤ mp.flatten.length ∧ mp.flatten.length ≤ slipMtu) :
    feed (rqByte true) idle (frames.flatMap slipWqPutp) = (idle, frames.map List.flatten) := by
  induction frames with
  | nil => rfl
  | cons mp rest ih =>
    obtain ⟨least, most⟩ := sizes mp List.mem_cons_self
    rw [List.flatMap_cons, feed_append, rqByte_frame mp least most,
      ih fun mp later => sizes mp (List.mem_cons_of_mem _ later)]
    rfl

theorem stuffed_length (data : List Byte) : (data.flatMap stuff).length ≤ 2 * data.length := by
  induction data with
  | nil => decide
  | cons c rest ih =>
    have two : (stuff c).length ≤ 2 := by
      unfold stuff
      split
      · decide
      · split <;> simp
    rw [List.flatMap_cons, List.length_append, List.length_cons]
    omega

end RoundTrip

/-- Frames of 20 to 296 bytes come out as they were put in, however the line's bytes are cut into messages and
blocks, and the encoder writes at most 2n + 2 bytes. -/
theorem slip_round_trip :
    (∀ frames msgs : List (List (List Byte)), (∀ mp ∈ frames, 20 ≤ mp.flatten.length ∧ mp.flatten.length ≤ 296) →
      msgs.flatten.flatten = frames.flatMap slipWqPutp →
      feed (slipRqPutp true) idle msgs = (idle, frames.map List.flatten)) ∧
    ∀ mp, (slipWqPutp mp).length ≤ 2 * mp.flatten.length + 2 := by
  constructor
  · intro frames msgs sizes cut
    have whole : feed (slipRqPutp true) idle msgs = feed (rqByte true) idle msgs.flatten.flatten := by
      rw [← feed_flatten, ← feed_flatten]
      rfl
    rw [whole, cut]
    exact rqByte_frames sizes
  · intro mp
    have body := stuffed_length mp.flatten
    rw [slipWqPutp, List.length_cons, List.length_append, List.length_singleton]
    omega

/-- A frame of twenty END bytes, cut on the line within an escape. -/
theorem slip_round_trip_cut :
    let line := slipWqPutp [List.replicate 20 slipEnd]
    feed (slipRqPutp true) idle [[line.take 2], [line.drop 2]] = (idle, [List.replicate 20 slipEnd]) :=
  slip_round_trip.1 [[List.replicate 20 slipEnd]] _ (by decide) (by decide)

section Resync

variable {bytes data : List Byte}

/-- Every 297th byte discards those before it. -/
theorem appended_length (short : bytes.length ≤ 296) :
    (appended bytes data).length = (bytes.length + data.length) % 297 := by
  induction data generalizing bytes with
  | nil => exact (Nat.mod_eq_of_lt (Nat.lt_succ_of_le short)).symm
  | cons c rest ih =>
    unfold appended at ih ⊢
    rw [List.foldl_cons, List.length_cons]
    split
    next full =>
      rw [slipMtu] at full
      rw [ih (by decide), List.length_nil]
      omega
    next room =>
      rw [slipMtu] at room
      rw [ih (by rw [List.length_append, List.length_singleton]; omega), List.length_append, List.length_singleton]
      omega

theorem appended_eq_iff (any : data ≠ []) (most : data.length ≤ 296) : appended bytes data = data ↔ bytes = [] := by
  constructor
  · intro same
    have length := congrArg List.length same
    by_cases short : bytes.length ≤ 296
    · rw [appended_length short] at length
      exact List.eq_nil_of_length_eq_zero (by omega)
    · obtain ⟨c, rest, rfl⟩ := List.exists_cons_of_ne_nil any
      rw [appended, List.foldl_cons, if_pos (by rw [slipMtu]; omega), ← appended, appended_length (by decide)] at length
      simp only [List.length_nil, List.length_cons] at length most
      omega
  · rintro rfl
    exact appended_fits (by simpa [slipMtu] using most)

theorem feed_closed (frame : Option (List Byte)) (data : List Byte) :
    (feed (rqByte true) ⟨frame, false⟩ (data.flatMap stuff ++ [slipEnd])).2 =
      (frame.map (appended · data)).toList.filter (20 ≤ ·.length) := by
  rw [feed_append, rqByte_stuffed]
  cases frame.map (appended · data) with
  | none => rfl
  | some bytes =>
    cases bytes with
    | nil => rfl
    | cons c rest => exact List.append_nil _

/-- What a leading END leaves in the buffer: itself, where an escape is pending and there is room. -/
def afterEnd (s : SlipState) (bytes : List Byte) : List Byte :=
  if s.inEsc ∧ bytes.length < 296 then bytes ++ [slipEnd] else []

theorem rqByte_end (s : SlipState) : (rqByte true s slipEnd).2.length ≤ 1 ∧
    (rqByte true s slipEnd).1 = ⟨s.frame.map (afterEnd s), false⟩ := by
  obtain ⟨frame, inEsc⟩ := s
  cases inEsc with
  | true =>
    have kept (bytes : List Byte) : (if slipMtu ≤ bytes.length then [] else bytes ++ [slipEnd]) =
        afterEnd ⟨frame, true⟩ bytes := by
      grind [afterEnd, slipMtu]
    exact ⟨Nat.zero_le 1, congrArg (SlipState.mk · false) (Option.map_congr fun bytes _ => kept bytes)⟩
  | false =>
    rcases frame with _ | _ | ⟨c, rest⟩
    · exact ⟨Nat.zero_le 1, rfl⟩
    · exact ⟨Nat.zero_le 1, rfl⟩
    · exact ⟨List.length_filter_le .., rfl⟩

/-- In any state of the receiver, the frame comes out behind what its leading END completes exactly if there is a buffer
and no escape is pending unless the buffer is full, and nothing of a frame that is too long comes out exactly if the
bytes after its last discard are too few. -/
theorem slip_resyncs_iff (s : SlipState) (mp : List (List Byte)) :
    let first := rqByte true s slipEnd
    let sent := (feed (rqByte true) s (slipWqPutp mp)).2
    first.2.length ≤ 1 ∧
      (20 ≤ mp.flatten.length → mp.flatten.length ≤ 296 →
        (sent = first.2 ++ [mp.flatten] ↔ ∃ bytes ∈ s.frame, s.inEsc = true → 296 ≤ bytes.length)) ∧
      (296 < mp.flatten.length → (sent = first.2 ↔ ∀ bytes ∈ s.frame,
        ((if s.inEsc ∧ bytes.length < 296 then bytes.length + 1 else 0) + mp.flatten.length) % 297 < 20)) := by
  intro first sent
  obtain ⟨single, state⟩ := rqByte_end s
  have behind : sent = first.2 ++
      ((s.frame.map (afterEnd s)).map (appended · mp.flatten)).toList.filter (20 ≤ ·.length) := by
    rw [← feed_closed, ← state]
    rfl
  rw [behind, List.append_cancel_left_eq]
  refine ⟨single, ?_⟩
  cases s.frame with
  | none => simp
  | some bytes =>
    have short : (afterEnd s bytes).length = if s.inEsc ∧ bytes.length < 296 then bytes.length + 1 else 0 := by
      rw [afterEnd]
      split <;> simp
    have empty : afterEnd s bytes = [] ↔ (s.inEsc = true → 296 ≤ bytes.length) := by
      rw [← List.length_eq_zero_iff, short]
      grind
    simp only [Option.map_some, Option.mem_some_iff, exists_eq_left', forall_eq']
    refine ⟨fun least most => ?_, fun _ => ?_⟩
    · have any : mp.flatten ≠ [] := List.ne_nil_of_length_pos (by omega)
      rw [← empty, ← appended_eq_iff any most]
      constructor
      · intro same
        have kept : mp.flatten ∈ [appended (afterEnd s bytes) mp.flatten].filter (20 ≤ ·.length) :=
          same ▸ List.mem_singleton_self _
        exact (List.mem_singleton.mp (List.mem_of_mem_filter kept)).symm
      · intro same
        rw [same]
        simpa using least
    · rw [← short, ← appended_length (by rw [short]; split <;> omega)]
      simp

/-- An escape that is pending takes the leading END into the frame, a receiver left without a buffer stays so, and
the last 20 bytes of a frame of 317 are a frame of their own. -/
theorem slip_loses_frame :
    let mp := [List.replicate 20 0#8]
    let sent before := (feed (rqByte true) before (slipWqPutp mp)).2
    sent (feed (rqByte true) idle [slipEsc]).1 = [slipEnd :: mp.flatten] ∧
      sent (feed (rqByte false) idle (slipWqPutp mp)).1 = [] ∧
      (feed (rqByte true) idle (slipWqPutp [List.replicate 317 0#8])).2 = mp := by
  decide +kernel

end Resync

end Kappara.Slip
