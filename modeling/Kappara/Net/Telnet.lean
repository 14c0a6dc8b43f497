import Kappara.Lib.Loops

/-! The input of a telnet session (wait_data, iac_strip and the loop of telnet_session of
uts/virt/telnetd.c), beside a lexer for the protocol. A data indication carries one block
of bytes. -/

set_option autoImplicit false

namespace Kappara.Telnet

open Loops (feed feed_append)

def tiac : Byte := 0xFF#8

def twill : Byte := 0xFB#8

def twont : Byte := 0xFC#8

def tdo : Byte := 0xFD#8

def tdont : Byte := 0xFE#8

def tsb : Byte := 0xFA#8

def tse : Byte := 0xF0#8

def toptEcho : Byte := 0x01#8

def toptSuppga : Byte := 0x03#8

inductive IacState where
  | normal | sawIac | sawVerb | inSb

structure IacFilter where
  state : IacState
  verb : Byte
  reply : List Byte
  lastCr : Bool

def iacf : IacFilter := ⟨.normal, 0#8, [], false⟩

def iacByte (f : IacFilter) (c : Byte) : IacFilter × List Byte :=
  match f.state with
  | .normal =>
    if c = tiac then ({ f with state := .sawIac }, [])
    else if c = 0x00#8 ∧ f.lastCr then ({ f with lastCr := false }, [])
    else ({ f with lastCr := c = 0x0d#8 }, [c])
  | .sawIac =>
    if c = tiac then ({ f with state := .normal }, [0xFF#8])
    else if c = tsb then ({ f with state := .inSb }, [])
    -- The verb is not stored here, nor anywhere else.
    else if c = twill ∨ c = twont ∨ c = tdo ∨ c = tdont then ({ f with state := .sawVerb }, [])
    else ({ f with state := .normal }, [])
  | .sawVerb =>
    ({ f with
      state := .normal
      reply := f.reply ++
        if f.verb = twill ∧ c ≠ toptSuppga ∧ f.reply.length + 3 ≤ 30 then [tiac, tdont, c]
        else if f.verb = tdo ∧ c ≠ toptEcho ∧ c ≠ toptSuppga ∧ f.reply.length + 3 ≤ 30 then [tiac, twont, c]
        else [] }, [])
  | .inSb => ({ f with state := if c = tiac then .sawIac else .inSb }, [])

def iacStrip : IacFilter → List Byte → IacFilter × List Byte := feed iacByte

inductive Ind where
  | data (block : List Byte)
  | ordrel
  | discon
  | other

/-- What wait_data puts into the buffer of the session, until it returns zero or less. -/
def waitData : List Ind → List (List Byte)
  | .data block :: rest => if block = [] then [] else block.take 64 :: waitData rest
  | .other :: rest => waitData rest
  | _ => []

def sessionRound (f : IacFilter) (buf : List Byte) : IacFilter × List (List Byte × List Byte) :=
  let (f, clean) := iacStrip { f with reply := [] } buf
  (f, [(f.reply, clean)])

def telnetSession (inds : List Ind) : List (List Byte × List Byte) := (feed sessionRound iacf (waitData inds)).2

def received : List Ind → List Byte
  | .data block :: rest => block ++ received rest
  | .other :: rest => received rest
  | _ => []

inductive Phase where
  | text | iac | option (verb : Byte) | sub | subIac
  deriving DecidableEq

inductive Token where
  | char (c : Byte)
  | request (verb x : Byte)

structure Lexer where
  phase : Phase
  cr : Bool

def Lexer.char (l : Lexer) (c : Byte) : Lexer × List Token :=
  if c = 0x00#8 ∧ l.cr then (⟨.text, false⟩, []) else (⟨.text, c = 0x0d#8⟩, [.char c])

def Lexer.next (l : Lexer) (c : Byte) : Lexer × List Token :=
  match l.phase with
  | .text => if c = tiac then ({ l with phase := .iac }, []) else l.char c
  | .iac =>
    if c = tiac then l.char tiac
    else if c = tsb then ({ l with phase := .sub }, [])
    else if c = twill ∨ c = twont ∨ c = tdo ∨ c = tdont then ({ l with phase := .option c }, [])
    else ({ l with phase := .text }, [])
  | .option verb => ({ l with phase := .text }, [.request verb c])
  | .sub => ({ l with phase := if c = tiac then .subIac else .sub }, [])
  | .subIac => ({ l with phase := if c = tse then .text else .sub }, [])

def lexer : Lexer := ⟨.text, false⟩

def tokens (bytes : List Byte) : List Token := (feed Lexer.next lexer bytes).2

def text (tokens : List Token) : List Byte :=
  tokens.flatMap fun
    | .char c => [c]
    | .request .. => []

def refusals (tokens : List Token) : List Byte :=
  tokens.flatMap fun
    | .request verb x =>
      if verb = twill ∧ x ≠ toptSuppga then [tiac, tdont, x]
      else if verb = tdo ∧ x ≠ toptEcho ∧ x ≠ toptSuppga then [tiac, twont, x]
      else []
    | .char _ => []

section Refusals

variable {f : IacFilter}

/-- Without a verb nothing is queued for the client. -/
theorem iacStrip_quiet (verb : f.verb = 0#8) (bytes : List Byte) :
    (iacStrip f bytes).1.verb = 0#8 ∧ (iacStrip f bytes).1.reply = f.reply := by
  induction bytes generalizing f with
  | nil => exact ⟨verb, rfl⟩
  | cons c rest ih =>
    have kept : (iacByte f c).1.verb = 0#8 ∧ (iacByte f c).1.reply = f.reply := by
      unfold iacByte
      cases f.state with
      | sawVerb => simp [verb, twill, tdo]
      | inSb => exact ⟨verb, rfl⟩
      | _ => grind
    exact ⟨(ih kept.1).1, (ih kept.1).2.trans kept.2⟩

theorem session_quiet (verb : f.verb = 0#8) (bufs : List (List Byte)) :
    (feed sessionRound f bufs).2.flatMap Prod.fst = [] := by
  induction bufs generalizing f with
  | nil => rfl
  | cons buf rest ih =>
    have quiet := @iacStrip_quiet { f with reply := [] } verb buf
    change (iacStrip _ buf).1.reply ++ _ = _
    rw [quiet.2]
    exact ih quiet.1

/-- The session answers no request at all. -/
theorem options_refused_iff (inds : List Ind) :
    (telnetSession inds).flatMap Prod.fst = refusals (tokens (received inds)) ↔
    refusals (tokens (received inds)) = [] := by
  rw [telnetSession, session_quiet rfl, eq_comm]

/-- IAC DO TERMINAL-TYPE. -/
theorem request_unanswered : let inds := [.data [tiac, tdo, 0x18#8]]
    refusals (tokens (received inds)) = [tiac, twont, 0x18#8] ∧ (telnetSession inds).flatMap Prod.fst = [] := by
  decide

end Refusals

section Transparency

variable {f : IacFilter} {l : Lexer}

def Phase.state : Phase → IacState
  | .text => .normal
  | .iac | .subIac => .sawIac
  | .option _ => .sawVerb
  | .sub => .inSb

/-- In a subnegotiation IAC stands only before SE, or before SB, where the filter stays inside too. -/
def Lexer.closed (l : Lexer) : List Byte → Bool
  | [] => true
  | c :: rest => (l.phase ≠ .subIac ∨ c = tse ∨ c = tsb) ∧ (l.next c).1.closed rest

/-- No NUL comes right after CR IAC IAC in the text: 0xFF leaves the flag for the CR as it is. -/
def Lexer.plain (l : Lexer) (lastCr : Bool) : List Byte → Bool
  | [] => true
  | c :: rest => ¬ (l.phase = .text ∧ c = 0x00#8 ∧ lastCr ∧ ¬ l.cr) ∧
      (l.next c).1.plain (if l.phase = .text ∧ c ≠ tiac then c = 0x0d#8 else lastCr) rest

/-- The filter is where the lexer is, and it has not forgotten a CR that the lexer remembers. -/
def Agree (f : IacFilter) (l : Lexer) : Prop := f.state = l.phase.state ∧ (l.cr → f.lastCr)

theorem Agree.next {c : Byte} (agree : Agree f l) (closed : l.phase ≠ .subIac ∨ c = tse ∨ c = tsb) :
    Agree (iacByte f c).1 (l.next c).1 ∧
      (iacByte f c).1.lastCr = (if l.phase = .text ∧ c ≠ tiac then decide (c = 0x0d#8) else f.lastCr) ∧
      (iacByte f c).2 =
        if l.phase = .text ∧ c = 0x00#8 ∧ f.lastCr ∧ ¬ l.cr then [] else text (l.next c).2 := by
  obtain ⟨state, cr⟩ := agree
  unfold iacByte Lexer.next Lexer.char
  rw [state]
  cases phase : l.phase <;> simp only [Phase.state] <;> split_ifs <;>
    simp_all [Agree, text, Phase.state, tiac, tse, tsb, twill, twont, tdo, tdont]

/-- Each NUL that is lost makes what is fed shorter than what the lexer reads, and nothing makes it longer. -/
theorem iacStrip_text {bytes : List Byte} (agree : Agree f l) (closed : l.closed bytes) :
    (iacStrip f bytes).2.length ≤ (text (feed Lexer.next l bytes).2).length ∧
      ((iacStrip f bytes).2 = text (feed Lexer.next l bytes).2 ↔ l.plain f.lastCr bytes) := by
  unfold iacStrip
  induction bytes generalizing f l with
  | nil => simp [feed, text, Lexer.plain]
  | cons c bytes ih =>
    simp only [Lexer.closed, decide_eq_true_eq] at closed
    obtain ⟨after, flag, here⟩ := agree.next closed.1
    obtain ⟨shorter, same⟩ := ih after closed.2
    have split : text (feed Lexer.next l (c :: bytes)).2 = text (l.next c).2 ++
        text (feed Lexer.next (l.next c).1 bytes).2 :=
      List.flatMap_append
    rw [flag] at same
    rw [split, feed, here]
    simp only [Lexer.plain, decide_eq_true_eq, ← same]
    by_cases lost : l.phase = .text ∧ c = 0x00#8 ∧ f.lastCr ∧ ¬ l.cr
    · have one : text (l.next c).2 = [c] := by simp [Lexer.next, Lexer.char, lost, text, tiac]
      rw [if_pos lost, one]
      refine ⟨by simp only [List.nil_append, List.length_append]; omega, ?_⟩
      refine iff_of_false (fun equal => ?_) (fun plain => plain.1 lost)
      have := congrArg List.length equal
      simp only [List.nil_append, List.length_append, List.length_singleton] at this
      omega
    · rw [if_neg lost, and_iff_right lost]
      simpa using shorter

theorem iacByte_same {g : IacFilter} (state : f.state = g.state) (flag : f.lastCr = g.lastCr) (c : Byte) :
    (iacByte f c).1.state = (iacByte g c).1.state ∧ (iacByte f c).1.lastCr = (iacByte g c).1.lastCr ∧
      (iacByte f c).2 = (iacByte g c).2 := by
  unfold iacByte
  rw [state, flag]
  cases g.state <;> grind

theorem iacStrip_same {g : IacFilter} (state : f.state = g.state) (flag : f.lastCr = g.lastCr) (bytes : List Byte) :
    (iacStrip f bytes).1.state = (iacStrip g bytes).1.state ∧
      (iacStrip f bytes).1.lastCr = (iacStrip g bytes).1.lastCr ∧ (iacStrip f bytes).2 = (iacStrip g bytes).2 := by
  unfold iacStrip
  induction bytes generalizing f g with
  | nil => exact ⟨state, flag, rfl⟩
  | cons c bytes ih =>
    obtain ⟨state, flag, here⟩ := iacByte_same state flag c
    obtain ⟨state, flag, rest⟩ := ih state flag
    exact ⟨state, flag, by rw [feed, feed, here, rest]⟩

/-- What the session feeds is the filtering of the buffers in a row: only the reply is reset between them. -/
theorem session_fed {g : IacFilter} (state : f.state = g.state) (flag : f.lastCr = g.lastCr) (bufs : List (List Byte)) :
    (feed sessionRound f bufs).2.flatMap Prod.snd = (iacStrip g bufs.flatten).2 := by
  induction bufs generalizing f g with
  | nil => rfl
  | cons buf rest ih =>
    obtain ⟨state, flag, here⟩ := @iacStrip_same { f with reply := [] } g state flag buf
    rw [List.flatten_cons, iacStrip, feed_append]
    change (iacStrip _ buf).2 ++ _ = _
    rw [here]
    exact congrArg _ (ih state flag)

/-- No indication up to the end of the session is longer than the buffer, and an empty one ends it with nothing
behind. -/
def Sized : List Ind → Prop
  | .data block :: rest => if block = [] then received rest = [] else block.length ≤ 64 ∧ Sized rest
  | .other :: rest => Sized rest
  | _ => True

theorem waitData_sublist (inds : List Ind) : (waitData inds).flatten.Sublist (received inds) := by
  fun_induction waitData inds with
  | case1 rest => exact List.nil_sublist _
  | case2 block rest some ih => exact (List.take_sublist 64 block).append ih
  | case3 rest ih => exact ih
  | case4 => exact List.nil_sublist _

theorem waitData_flatten (inds : List Ind) : (waitData inds).flatten = received inds ↔ Sized inds := by
  fun_induction waitData inds with
  | case1 rest =>
    rw [Sized, if_pos rfl]
    exact eq_comm
  | case2 block rest some ih =>
    rw [Sized, if_neg some, received, List.flatten_cons, ← ih]
    constructor
    · intro whole
      have short := (waitData_sublist rest).length_le
      have fits : block.length ≤ 64 := by
        have := congrArg List.length whole
        simp only [List.length_append, List.length_take] at this
        omega
      rw [List.take_of_length_le fits] at whole
      exact ⟨fits, List.append_cancel_left whole⟩
    · rintro ⟨fits, rest⟩
      rw [List.take_of_length_le fits, rest]
  | case3 rest ih => exact ih
  | case4 inds noData noOther => cases inds with
    | nil => simp [received, Sized]
    | cons ind rest => cases ind <;> simp_all [received, Sized]

/-- Bytes that are neither IAC nor NUL are fed and read as they are. -/
theorem iacStrip_ordinary {bytes : List Byte} (ordinary : ∀ c ∈ bytes, c ≠ tiac ∧ c ≠ 0x00#8)
    (state : f.state = .normal) : (iacStrip f bytes).2 = bytes := by
  unfold iacStrip
  induction bytes generalizing f with
  | nil => rfl
  | cons c bytes ih =>
    obtain ⟨⟨notIac, notNul⟩, rest⟩ := List.forall_mem_cons.mp ordinary
    rw [feed, iacByte, state]
    simp only [notIac, notNul, false_and, if_false]
    exact congrArg (c :: ·) (ih rest rfl)

theorem lexer_ordinary {bytes : List Byte} (ordinary : ∀ c ∈ bytes, c ≠ tiac ∧ c ≠ 0x00#8) (phase : l.phase = .text) :
    text (feed Lexer.next l bytes).2 = bytes := by
  induction bytes generalizing l with
  | nil => rfl
  | cons c bytes ih =>
    obtain ⟨⟨notIac, notNul⟩, rest⟩ := List.forall_mem_cons.mp ordinary
    rw [feed, Lexer.next, phase]
    simp only [notIac, notNul, Lexer.char, false_and, if_false]
    exact congrArg (c :: ·) (ih rest rfl)

/-- Where every indication fits into the buffer and subnegotiations hold no other IAC, the terminal is fed what the
lexer reads exactly if no NUL follows CR IAC IAC; where all bytes are ordinary, exactly if the indications fit. -/
theorem session_transparent_iff (inds : List Ind) :
    (Sized inds → lexer.closed (received inds) →
      ((telnetSession inds).flatMap Prod.snd = text (tokens (received inds)) ↔ lexer.plain false (received inds))) ∧
    ((∀ c ∈ received inds, c ≠ tiac ∧ c ≠ 0x00#8) →
      ((telnetSession inds).flatMap Prod.snd = text (tokens (received inds)) ↔ Sized inds)) := by
  rw [telnetSession, session_fed (g := iacf) rfl rfl]
  constructor
  · intro sized closed
    rw [(waitData_flatten inds).mpr sized]
    exact (@iacStrip_text iacf lexer _ ⟨rfl, by simp [lexer]⟩ closed).2
  · intro ordinary
    rw [iacStrip_ordinary (fun c kept => ordinary c ((waitData_sublist inds).subset kept)) rfl, tokens,
      lexer_ordinary ordinary rfl]
    exact waitData_flatten inds

/-- A line in two indications, cut between CR and NUL. -/
theorem session_transparent_line : let inds := [.data [0x6c#8, 0x73#8, 0x0d#8], .data [0x00#8, 0x70#8]]
    (telnetSession inds).flatMap Prod.snd = text (tokens (received inds)) :=
  ((session_transparent_iff _).1 (by simp [Sized]) (by decide)).mpr (by decide)

/-- Of a block of 65 bytes the last is lost. -/
theorem long_block_cut : let inds := [.data (List.replicate 65 0x61#8)]
    ((telnetSession inds).flatMap Prod.snd).length = 64 ∧ (text (tokens (received inds))).length = 65 := by
  decide +kernel

end Transparency

end Kappara.Telnet
