import Kappara.Vm.Windows

/-! The stack a new program finds (part 5 of sys_execve_impl of
uts/os/user/user.c): the argument strings, and below them the words from argc to
the end of the auxiliary vector.

Everything is written downwards from the top, so every piece ends where the one
before it starts or below, and nothing is overwritten. -/

set_option autoImplicit false

namespace Kappara.Vm

open ByteMemory
open BitVec (ofNat toNat_ofNat toNat_sub)
open List (flatten_cons length_append length_cons length_map map_cons map_reverse)

def le64 (word : Va) : List Byte := (List.range 8).map (byteOf word.toNat)

/-- Strings pushed one below the other, each on a multiple of eight. -/
def stringWrites : Va → List (List Byte) → List (Write 64)
  | _, [] => []
  | sp, bytes :: rest =>
    let sp := (sp - ofNat 64 bytes.length) &&& ~~~7#64
    (sp, bytes) :: stringWrites sp rest

def wordWrites : Va → List (List Byte) → List (Write 64)
  | _, [] => []
  | sp, bytes :: rest =>
    let sp := sp - ofNat 64 bytes.length
    (sp, bytes) :: wordWrites sp rest

def pushed : Va → List (Write 64) → Va
  | sp, [] => sp
  | _, x :: rest => pushed x.1 rest

/-- The words in the order they are pushed; the pointers come last argument first. -/
def stackData (pointers : List Va) (entry libc app : Va) : List (List Byte) :=
  (if pointers.length % 2 = 0 then [le64 0] else []) ++
    [le64 0 ++ le64 0, le64 9 ++ le64 entry, le64 0x101 ++ le64 libc, le64 0x100 ++ le64 app, le64 0, le64 0] ++
    pointers.map le64 ++ [le64 (ofNat 64 pointers.length)]

/-- The copies of the argument strings, first argument first, and the words below them. -/
structure ExecStack where
  copies : List (Write 64)
  words : List (Write 64)
  sp : Va

def execStack (argv : List (List Byte)) (entry libc app : Va) : ExecStack :=
  let strings := stringWrites execStackTop (((argv.take 32).map (· ++ [0#8])).reverse)
  let top := pushed execStackTop strings &&& ~~~15#64
  let words := wordWrites top (stackData (strings.map Prod.fst) entry libc app)
  ⟨strings.reverse, words, pushed top words⟩

def ExecStack.memory (stack : ExecStack) (mem : Memory 64) : Memory 64 :=
  (stack.copies.reverse ++ stack.words).foldl write mem

/-! ## The copies of the program -/

theorem stringWrites_bytes (sp : Va) (strings : List (List Byte)) :
    (stringWrites sp strings).map Prod.snd = strings := by
  induction strings generalizing sp with
  | nil => rfl
  | cons bytes rest ih => rw [stringWrites, map_cons, ih]

section Program

variable {n : Nat} {m : Fin n} {ok fail : Prog n}

theorem pushStrings_copies (next : Va → Prog n) (sp : Va) (strings : List (List Byte)) :
    pushStrings m fail next sp (strings.map List.length) =
      (stringWrites sp strings).foldr (fun x rest => .copyin m x.1 .args 0 x.2.length rest fail)
        (next (pushed sp (stringWrites sp strings))) := by
  induction strings generalizing sp with
  | nil => rfl
  | cons bytes rest ih => simp only [map_cons, pushStrings, stringWrites, List.foldr_cons, ih, pushed]

theorem pushWords_copies (sp : Va) (words : List (List Byte)) : pushWords m ok sp (words.map List.length) =
      (wordWrites sp words).foldr (fun x rest => .copyin m x.1 .args 0 x.2.length rest rest) ok := by
  induction words generalizing sp with
  | nil => rfl
  | cons bytes rest ih => simp only [map_cons, pushWords, wordWrites, List.foldr_cons, ih]

/-- The copies execve makes to the stack are these writes, in this order. -/
theorem execArgs_copies (argv : List (List Byte)) (entry libc app : Va) :
    execArgs m (argv.map fun arg => arg.length + 1) ok fail =
      (execStack argv entry libc app).copies.reverse.foldr (fun x rest => .copyin m x.1 .args 0 x.2.length rest fail)
        ((execStack argv entry libc app).words.foldr (fun x rest => .copyin m x.1 .args 0 x.2.length rest rest)
          ok) := by
  have lengths : ((argv.map fun arg => arg.length + 1).take 32).reverse =
      (((argv.take 32).map (· ++ [0#8])).reverse).map List.length := by simp [Function.comp_def]
  have words (pointers : List Va) : stackWords pointers.length =
      (stackData pointers entry libc app).map List.length := by
    unfold stackWords stackData
    split <;> simp [le64, Function.comp_def]
  have count : ((argv.map fun arg => arg.length + 1).take 32).length =
      ((stringWrites execStackTop (((argv.take 32).map (· ++ [0#8])).reverse)).map Prod.fst).length := by
    have same := congrArg List.length (stringWrites_bytes execStackTop (((argv.take 32).map (· ++ [0#8])).reverse))
    rw [length_map] at same
    rw [← List.length_reverse, lengths, length_map, length_map, same]
  simp only [execArgs, execStack, List.reverse_reverse]
  rw [lengths, pushStrings_copies, count, words, pushWords_copies]

end Program

/-! ## The layout -/

variable {sp : Va} {strings words : List (List Byte)}

/-- Strings of at most 128 bytes, each with up to seven bytes of padding above it. -/
theorem stringWrites_below (short : ∀ bytes ∈ strings, bytes.length ≤ 128) (room : 135 * strings.length ≤ sp.toNat) :
    Below sp.toNat (stringWrites sp strings) ∧
      sp.toNat ≤ (pushed sp (stringWrites sp strings)).toNat + 135 * strings.length := by
  induction strings generalizing sp with
  | nil => exact ⟨trivial, le_rfl⟩
  | cons bytes rest ih =>
    obtain ⟨first, later⟩ := List.forall_mem_cons.mp short
    rw [length_cons] at room
    have place : ((sp - ofNat 64 bytes.length) &&& ~~~7#64).toNat = (sp.toNat - bytes.length) / 8 * 8 := by
      rw [clear_toNat (k := 3) _ (by decide), toNat_sub, toNat_ofNat]
      omega
    have below := @ih ((sp - ofNat 64 bytes.length) &&& ~~~7#64) later (by omega)
    rw [place] at below
    simp only [stringWrites, Below, pushed, place, length_cons]
    exact ⟨⟨by omega, below.1⟩, by omega⟩

theorem wordWrites_below (room : words.flatten.length ≤ sp.toNat) :
    Below sp.toNat (wordWrites sp words) ∧
      (pushed sp (wordWrites sp words)).toNat + words.flatten.length = sp.toNat := by
  induction words generalizing sp with
  | nil => exact ⟨trivial, rfl⟩
  | cons bytes rest ih =>
    rw [flatten_cons, length_append] at room ⊢
    have place : (sp - ofNat 64 bytes.length).toNat = sp.toNat - bytes.length := by
      rw [toNat_sub, toNat_ofNat]
      omega
    have below := @ih (sp - ofNat 64 bytes.length) (by omega)
    rw [place] at below
    simp only [wordWrites, Below, pushed, place]
    exact ⟨⟨by omega, below.1⟩, by omega⟩

/-- Words that can be read one by one are one block, the last one pushed first. -/
theorem wordWrites_block {mem : Memory 64} (held : ∀ x ∈ wordWrites sp words, loadBytes mem x.1 x.2.length = x.2)
    (room : words.flatten.length ≤ sp.toNat) :
    loadBytes mem (pushed sp (wordWrites sp words)) words.flatten.length = words.reverse.flatten := by
  induction words generalizing sp with
  | nil => rfl
  | cons bytes rest ih =>
    rw [flatten_cons, length_append] at room
    have place : (sp - ofNat 64 bytes.length).toNat = sp.toNat - bytes.length := by
      rw [toNat_sub, toNat_ofNat]
      omega
    have inside : rest.flatten.length ≤ (sp - ofNat 64 bytes.length).toNat := by omega
    obtain ⟨first, later⟩ := List.forall_mem_cons.mp held
    have behind : pushed (sp - ofNat 64 bytes.length) (wordWrites (sp - ofNat 64 bytes.length) rest) +
        ofNat 64 rest.flatten.length = sp - ofNat 64 bytes.length := by
      apply BitVec.eq_of_toNat_eq
      have end_ := (wordWrites_below inside).2
      rw [BitVec.toNat_add, toNat_ofNat]
      omega
    rw [flatten_cons, length_append, Nat.add_comm, wordWrites, pushed, loadBytes_append, ih later inside, behind, first,
      List.reverse_cons, List.flatten_append, List.flatten_singleton]

theorem below_append {top : Nat} {first second : List (Write 64)} (below : Below top first) (start : sp.toNat ≤ top)
    (next : Below (pushed sp first).toNat second) : Below top (first ++ second) := by
  induction first generalizing sp top with
  | nil => exact next.mono start
  | cons x rest ih => exact ⟨below.1, ih below.2 le_rfl next⟩

theorem pushed_le {top : Nat} {writes : List (Write 64)} (below : Below top writes) :
    ∀ x ∈ writes, (pushed sp writes).toNat ≤ x.1.toNat := by
  induction writes generalizing sp top with
  | nil => simp
  | cons x rest ih =>
    have first : (pushed x.1 rest).toNat ≤ x.1.toNat := by
      cases rest with
      | nil => exact le_rfl
      | cons y rest => exact (ih below.2 y List.mem_cons_self).trans (by have next := below.2.1; omega)
    exact List.forall_mem_cons.mpr ⟨first, fun y member => ih below.2 y member⟩

variable {pointers : List Va} {entry libc app : Va}

theorem le64_length (word : Va) : (le64 word).length = 8 := by simp [le64]

theorem words_length (list : List Va) : (list.flatMap le64).length = 8 * list.length := by
  induction list with
  | nil => rfl
  | cons word rest ih =>
    rw [List.flatMap_cons, length_append, le64_length, length_cons]
    omega

/-- The zero that makes the block a multiple of 16. -/
def padding (argc : Nat) : List Byte := if argc % 2 = 0 then le64 0 else []

theorem stackData_reverse : (stackData pointers entry libc app).reverse.flatten =
    (ofNat 64 pointers.length :: pointers.reverse ++ [0, 0, 0x100, app, 0x101, libc, 9, entry, 0, 0]).flatMap le64 ++
      padding pointers.length := by
  unfold stackData padding
  split <;> simp [List.flatMap_def]

theorem stackData_length : (stackData pointers entry libc app).flatten.length =
    8 * (pointers.length + 11) + if pointers.length % 2 = 0 then 8 else 0 := by
  unfold stackData
  split <;> simp only [List.flatten_append, length_append, ← List.flatMap_def, words_length, flatten_cons,
    List.flatten_nil, le64_length, List.length_nil] <;> omega

/-- For up to 32 arguments of at most 127 bytes: the stack pointer is on a multiple of 16; from it on stand argc, the
pointers to the copies in the order of the arguments, a zero for the end of argv, a zero for the empty environment and
the auxiliary vector; each copy is its argument with a zero behind it; the copies lie above the words and each above the
one before it, and all of this between the stack's first address and its top. -/
theorem exec_stack_layout (argv : List (List Byte)) (entry libc app : Va) (mem : Memory 64) (few : argv.length ≤ 32)
    (short : ∀ arg ∈ argv, arg.length ≤ 127) :
    let stack := execStack argv entry libc app
    stack.sp.toNat % 16 = 0 ∧ execStackVa.toNat ≤ stack.sp.toNat ∧
      stack.copies.map Prod.snd = argv.map (· ++ [0#8]) ∧
      loadBytes (stack.memory mem) stack.sp (8 * (argv.length + 11)) =
        (ofNat 64 argv.length :: stack.copies.map Prod.fst ++
        [0, 0, 0x100, app, 0x101, libc, 9, entry, 0, 0]).flatMap le64 ∧
      (∀ x ∈ stack.copies, loadBytes (stack.memory mem) x.1 x.2.length = x.2) ∧
      stack.copies.Pairwise (fun x y => x.1.toNat + x.2.length ≤ y.1.toNat) ∧
      ∀ x ∈ stack.copies, stack.sp.toNat + 8 * (argv.length + 11) ≤ x.1.toNat ∧
        x.1.toNat + x.2.length ≤ execStackTop.toNat := by
  intro stack
  obtain ⟨strings, whole⟩ : ∃ strings, ((argv.take 32).map (· ++ [0#8])).reverse = strings := ⟨_, rfl⟩
  have args : strings.reverse = argv.map (· ++ [0#8]) := by
    rw [← whole, List.reverse_reverse, List.take_of_length_le few]
  have bytes := stringWrites_bytes execStackTop strings
  have some : strings.length = argv.length := by rw [← List.length_reverse, args, length_map]
  have lengths : ∀ bytes ∈ strings, bytes.length ≤ 128 := by
    intro bytes member
    rw [← List.mem_reverse, args] at member
    obtain ⟨arg, here, rfl⟩ := List.mem_map.mp member
    have length := short arg here
    rw [length_append, List.length_singleton]
    omega
  have high : execStackTop.toNat = 0x21200000 := rfl
  have down : execStackVa.toNat = 0x21000000 := rfl
  obtain ⟨stringsBelow, low⟩ := @stringWrites_below execStackTop strings lengths (by omega)
  have made : stack = execStack argv entry libc app := rfl
  rw [execStack, whole] at made
  generalize written : stringWrites execStackTop strings = copies at *
  have count : copies.length = argv.length := by rw [← length_map Prod.snd, bytes, some]
  have aligned := clear_toNat (pushed execStackTop copies) (show ∀ i < 64, (15#64).getLsbD i = decide (i < 4) by decide)
  generalize pushed execStackTop copies &&& ~~~15#64 = top at *
  have size := @stackData_length (copies.map Prod.fst) entry libc app
  have shape := @stackData_reverse (copies.map Prod.fst) entry libc app
  rw [length_map, count] at size shape
  generalize stackData (copies.map Prod.fst) entry libc app = data at *
  have room : data.flatten.length ≤ top.toNat := by split at size <;> omega
  obtain ⟨wordsBelow, total⟩ := wordWrites_below room
  have all : Below execStackTop.toNat (copies ++ wordWrites top data) :=
    below_append stringsBelow le_rfl (wordsBelow.mono (by omega))
  have read {x : Write 64} : x ∈ copies ++ wordWrites top data → loadBytes (stack.memory mem) x.1 x.2.length = x.2 := by
    rw [ExecStack.memory, made, List.reverse_reverse]
    exact all.read (by decide)
  have block := wordWrites_block (fun x member => read (List.mem_append_right _ member)) room
  rw [shape] at block
  rw [made] at read block ⊢
  dsimp only at read block ⊢
  refine ⟨by split at size <;> omega, by split at size <;> omega, ?_, ?_, ?_, ?_, ?_⟩
  · rw [map_reverse, bytes, args]
  · rw [← loadBytes_take _ _ data.flatten.length _ (by omega), block, map_reverse]
    apply List.take_left'
    rw [words_length]
    simp [count]
  · exact fun x member => read (List.mem_append_left _ (List.mem_reverse.mp member))
  · exact List.pairwise_reverse.mpr stringsBelow.pairwise.1
  · intro x member
    rw [List.mem_reverse] at member
    have above := @pushed_le execStackTop _ _ stringsBelow x member
    refine ⟨?_, stringsBelow.pairwise.2 x member⟩
    omega

theorem exec_stack_layout_two : let stack := execStack [[0x61#8], [0x62#8, 0x63#8]] execVa 0 0
    stack.copies = [(0x211ffff0, [0x61#8, 0#8]), (0x211ffff8, [0x62#8, 0x63#8, 0#8])] ∧
    loadBytes (stack.memory fun _ => 0) stack.sp 104 =
      [2, 0x211ffff0, 0x211ffff8, 0, 0, 0x100, 0, 0x101, 0, 9, execVa, 0, 0].flatMap le64 ∧
    loadBytes (stack.memory fun _ => 0) 0x211ffff0 2 = [0x61#8, 0#8] ∧
    loadBytes (stack.memory fun _ => 0) 0x211ffff8 3 = [0x62#8, 0x63#8, 0#8] := by
  intro stack
  have copies : stack.copies = [(0x211ffff0, [0x61#8, 0#8]), (0x211ffff8, [0x62#8, 0x63#8, 0#8])] := by decide +kernel
  obtain ⟨-, -, -, words, strings, -⟩ :=
    exec_stack_layout [[0x61#8], [0x62#8, 0x63#8]] execVa 0 0 (fun _ => 0) (by decide) (by decide)
  have first := strings (0x211ffff0, _) (copies ▸ List.mem_cons_self)
  have second := strings (0x211ffff8, _) (copies ▸ List.mem_cons_of_mem _ (List.mem_singleton_self _))
  rw [copies] at words
  exact ⟨copies, words, first, second⟩

end Kappara.Vm
