import Kappara.Lib.Loops

/-! The terminal emulator (uts/os/io/vt.c, include/kappara/io/vt.h).

Every access to a cell or a parameter goes through its position; one outside the
array has no result. The numbers are C ints: they are kept as integers, and what
is computed from a parameter is brought back to 32 bits. -/

set_option autoImplicit false

namespace Kappara.Terminal

open Loops

/-- The int with the given value modulo 2^32. -/
def toInt32 (x : Int) : Int := (x + 2147483648) % 4294967296 - 2147483648

def vtColorBright : Byte := 8#8
def vtColorDefault : Byte := 0xff#8
def vtFlagBold : Byte := 1#8
def vtFlagUnderline : Byte := 2#8
def vtFlagReverse : Byte := 4#8

structure VtCell where
  ch : Byte
  fg : Byte
  bg : Byte
  flags : Byte

/-- The attributes a written cell takes: the cur_ and the saved_ fields. -/
structure Attrs where
  fg : Byte
  bg : Byte
  flags : Byte

inductive VtState where
  | ground | esc | csi
  deriving DecidableEq

structure Vt where
  cells : Fin 24 → Fin 80 → VtCell
  row : Int
  col : Int
  savedRow : Int
  savedCol : Int
  cur : Attrs
  saved : Attrs
  scrollTop : Int
  scrollBot : Int
  autowrap : Bool
  cursorVisible : Bool
  wrapPending : Bool
  state : VtState
  params : Fin 16 → Int
  nParams : Int
  csiPrivate : Bool
  bellPending : Bool
  dirtyTop : Int
  dirtyBot : Int

section

variable (v : Vt) (n : Int) (b : Byte)

def readCell (row col : Int) : Option VtCell := do
  let r ← index 24 row
  let c ← index 80 col
  some (v.cells r c)

def writeCell (row col : Int) (cell : VtCell) : Option Vt := do
  let r ← index 24 row
  let c ← index 80 col
  some { v with cells := Function.update v.cells r (Function.update (v.cells r) c cell) }

def readParam (i : Int) : Option Int := do
  let k ← index 16 i
  some (v.params k)

def writeParam (i : Int) (value : Int) : Option Vt := do
  let k ← index 16 i
  some { v with params := Function.update v.params k value }

def blank : VtCell := ⟨0x20#8, v.cur.fg, v.cur.bg, 0#8⟩

def vtDirtyRange (top bot : Int) : Vt :=
  let top := if top < 0 then 0 else top
  let bot := if 24 ≤ bot then 23 else bot
  if bot < top then v
  else { v with dirtyTop := if top < v.dirtyTop then top else v.dirtyTop,
                dirtyBot := if v.dirtyBot < bot then bot else v.dirtyBot }

def vtDirtyRow (row : Int) : Vt :=
  if row < 0 ∨ 24 ≤ row then v
  else { v with dirtyTop := if row < v.dirtyTop then row else v.dirtyTop,
                dirtyBot := if v.dirtyBot < row then row else v.dirtyBot }

def vtClearRow (row colStart colEnd : Int) : Option Vt :=
  if row < 0 ∨ 24 ≤ row then some v
  else
    let colStart := if colStart < 0 then 0 else colStart
    let colEnd := if 80 < colEnd then 80 else colEnd
    if colEnd ≤ colStart then some v
    else do
      let v ← up (fun c v => writeCell v row c (blank v)) colStart (colEnd - colStart).toNat v
      some (vtDirtyRow v row)

def vtClearRegion (rStart rEnd : Int) : Option Vt :=
  up (fun r v => vtClearRow v r 0 80) rStart (min rEnd 24 - rStart).toNat v

def copyRow (dst src : Int) : Option Vt :=
  up (fun c v => do
    let cell ← readCell v src c
    writeCell v dst c cell) 0 80 v

def vtScrollUp : Option Vt :=
  if n ≤ 0 then some v
  else if v.scrollBot < v.scrollTop then some v
  else do
    let top := v.scrollTop
    let bot := v.scrollBot
    let n := if bot - top + 1 < n then bot - top + 1 else n
    let v ← up (fun r v => copyRow v r (r + n)) top (bot - n - top + 1).toNat v
    let v ← up (fun r v => vtClearRow v r 0 80) (bot - n + 1) n.toNat v
    some (vtDirtyRange v top bot)

def vtScrollDown : Option Vt :=
  if n ≤ 0 then some v
  else if v.scrollBot < v.scrollTop then some v
  else do
    let top := v.scrollTop
    let bot := v.scrollBot
    let n := if bot - top + 1 < n then bot - top + 1 else n
    let v ← down (fun r v => copyRow v r (r - n)) bot (bot - n - top + 1).toNat v
    let v ← up (fun r v => vtClearRow v r 0 80) top n.toNat v
    some (vtDirtyRange v top bot)

def clamp (x bound : Int) : Int := if x < 0 then 0 else if bound ≤ x then bound - 1 else x

def vtClampCursor : Vt := { v with row := clamp v.row 24, col := clamp v.col 80 }

def vtCursorDown : Option Vt :=
  if v.row = v.scrollBot then vtScrollUp v 1
  else if v.row < 23 then some { v with row := v.row + 1 }
  else some v

def vtCursorUpScroll : Option Vt :=
  if v.row = v.scrollTop then vtScrollDown v 1
  else if 0 < v.row then some { v with row := v.row - 1 }
  else some v

def vtWrap : Option Vt :=
  if v.wrapPending then do
    let v ← vtCursorDown { v with col := 0 }
    some { v with wrapPending := false }
  else some v

def vtPutPrintable (ch : Byte) : Option Vt := do
  let v ← vtWrap v
  let v ← writeCell v v.row v.col ⟨ch, v.cur.fg, v.cur.bg, v.cur.flags⟩
  let v := vtDirtyRow v v.row
  if v.col = 79 then some (if v.autowrap then { v with wrapPending := true } else v)
  else some { v with col := v.col + 1 }

def vtCtl : Option Vt :=
  if b = 0x07#8 then some { v with bellPending := true }
  else if b = 0x08#8 then some { v with wrapPending := false, col := if 0 < v.col then v.col - 1 else v.col }
  else if b = 0x09#8 then
    -- col & ~7 drops the last three bits
    let next := v.col - v.col % 8 + 8
    some { v with col := if 80 ≤ next then 79 else next, wrapPending := false }
  else if b = 0x0a#8 ∨ b = 0x0b#8 ∨ b = 0x0c#8 then do
    let v ← vtCursorDown v
    some { v with wrapPending := false }
  else if b = 0x0d#8 then some { v with col := 0, wrapPending := false }
  else some v

def defaultAttrs : Attrs := ⟨vtColorDefault, vtColorDefault, 0#8⟩

def vtResetDefaults : Vt :=
  { v with
    cur := defaultAttrs
    scrollTop := 0
    scrollBot := 23
    autowrap := true
    cursorVisible := true
    wrapPending := false }

def saveCursor : Vt :=
  { v with savedRow := v.row, savedCol := v.col, saved := v.cur }

def restoreCursor : Vt :=
  { v with row := v.savedRow, col := v.savedCol, cur := v.saved, wrapPending := false }

def escFinal : Option Vt :=
  if b = 0x63#8 then do  -- c
    let v ← vtClearRegion (vtResetDefaults v) 0 24
    some { v with row := 0, col := 0 }
  else if b = 0x44#8 then do  -- D
    let v ← vtCursorDown v
    some { v with wrapPending := false }
  else if b = 0x4d#8 then do  -- M
    let v ← vtCursorUpScroll v
    some { v with wrapPending := false }
  else if b = 0x45#8 then do  -- E
    let v ← vtCursorDown { v with col := 0 }
    some { v with wrapPending := false }
  else if b = 0x37#8 then some (saveCursor v)  -- 7
  else if b = 0x38#8 then some (vtClampCursor (restoreCursor v))  -- 8
  else some v

def vtHandleEsc : Option Vt := do
  let v ← escFinal v b
  some { v with state := .ground }

def vtP (i : Int) (default : Int) : Option Int :=
  if v.nParams ≤ i then some default
  else do
    let p ← readParam v i
    some (if p = 0 then default else p)

def sgrParam (a : Attrs) (p : Int) : Attrs :=
  if p = 0 then defaultAttrs
  else if p = 1 then { a with flags := a.flags ||| vtFlagBold }
  else if p = 4 then { a with flags := a.flags ||| vtFlagUnderline }
  else if p = 7 then { a with flags := a.flags ||| vtFlagReverse }
  else if p = 22 then { a with flags := a.flags &&& ~~~vtFlagBold }
  else if p = 24 then { a with flags := a.flags &&& ~~~vtFlagUnderline }
  else if p = 27 then { a with flags := a.flags &&& ~~~vtFlagReverse }
  else if 30 ≤ p ∧ p ≤ 37 then { a with fg := BitVec.ofInt 8 (p - 30) }
  else if p = 39 then { a with fg := vtColorDefault }
  else if 40 ≤ p ∧ p ≤ 47 then { a with bg := BitVec.ofInt 8 (p - 40) }
  else if p = 49 then { a with bg := vtColorDefault }
  else if 90 ≤ p ∧ p ≤ 97 then { a with fg := BitVec.ofInt 8 (p - 90) ||| vtColorBright }
  else if 100 ≤ p ∧ p ≤ 107 then { a with bg := BitVec.ofInt 8 (p - 100) ||| vtColorBright }
  else a

def vtSgr : Option Vt :=
  if v.nParams = 0 then some { v with cur := defaultAttrs }
  else up (fun i v => do
    let p ← readParam v i
    some { v with cur := sgrParam v.cur p }) 0 v.nParams.toNat v

def vtEd : Option Vt := do
  let mode ← vtP v 0 0
  if mode = 0 ∨ v.nParams = 0 then do
    let v ← vtClearRow v v.row v.col 80
    vtClearRegion v (v.row + 1) 24
  else if mode = 1 then do
    let v ← vtClearRegion v 0 v.row
    vtClearRow v v.row 0 (v.col + 1)
  else if mode = 2 ∨ mode = 3 then vtClearRegion v 0 24
  else some v

def vtEl : Option Vt := do
  let mode ← vtP v 0 0
  if mode = 0 ∨ v.nParams = 0 then vtClearRow v v.row v.col 80
  else if mode = 1 then vtClearRow v v.row 0 (v.col + 1)
  else if mode = 2 then vtClearRow v v.row 0 80
  else some v

def vtDecsetDecrst (set : Bool) : Option Vt :=
  up (fun i v => do
    let p ← readParam v i
    some (if p = 7 then { v with autowrap := set }
          else if p = 25 then { v with cursorVisible := set }
          else v)) 0 v.nParams.toNat v

/-- IL and DL scroll the part of the region that starts at the cursor. -/
def fromCursor (scroll : Vt → Int → Option Vt) (v : Vt) (n : Int) : Option Vt :=
  if v.scrollTop ≤ v.row ∧ v.row ≤ v.scrollBot then do
    let saveTop := v.scrollTop
    let v ← scroll { v with scrollTop := v.row } n
    some { v with scrollTop := saveTop }
  else some v

/-- The blanks ICH and DCH leave, up to the given column. -/
def blankCols (first stop : Int) : Option Vt :=
  up (fun c v => writeCell v v.row c (blank v)) first (stop - first).toNat v

def copyCell (dst src : Int) : Option Vt := do
  let cell ← readCell v v.row src
  writeCell v v.row dst cell

/-- The count of ICH and DCH: bounded by the rest of the row from above only. -/
def restOfRow : Int := if 80 - v.col < n then 80 - v.col else n

def insertChars : Option Vt := do
  let n := restOfRow v n
  let stop := toInt32 (v.col + n)
  let v ← down (fun c v => copyCell v c (toInt32 (c - n))) 79 (80 - stop).toNat v
  let v ← blankCols v v.col stop
  some (vtDirtyRow v v.row)

def deleteChars : Option Vt := do
  let n := restOfRow v n
  let stop := toInt32 (80 - n)
  let v ← up (fun c v => copyCell v c (toInt32 (c + n))) v.col (stop - v.col).toNat v
  let v ← blankCols v stop 80
  some (vtDirtyRow v v.row)

/-- DECSTBM. -/
def setRegion : Option Vt := do
  let top ← vtP v 0 1
  let bot ← vtP v 1 24
  let top := toInt32 (top - 1)
  let bot := toInt32 (bot - 1)
  let top := if top < 0 then 0 else top
  let bot := if 24 ≤ bot then 23 else bot
  some (if top < bot then { v with scrollTop := top, scrollBot := bot, row := 0, col := 0 } else v)

def moveTo (row col : Int) : Vt := { v with row := toInt32 row, col := toInt32 col, wrapPending := false }

/-- CUP. -/
def position : Option Vt := do
  let row ← vtP v 0 1
  let col ← vtP v 1 1
  some (moveTo v (row - 1) (col - 1))

def withCount (act : Vt → Int → Option Vt) : Option Vt := do
  let n ← vtP v 0 1
  act v n

/-- The switch of vt_dispatch_csi. -/
def csiFinal (final : Byte) : Option Vt :=
  if final = 0x41#8 then withCount v (fun v n => some (moveTo v (v.row - n) v.col))  -- A
  else if final = 0x42#8 then withCount v (fun v n => some (moveTo v (v.row + n) v.col))  -- B
  else if final = 0x43#8 then withCount v (fun v n => some (moveTo v v.row (v.col + n)))  -- C
  else if final = 0x44#8 then withCount v (fun v n => some (moveTo v v.row (v.col - n)))  -- D
  else if final = 0x45#8 then withCount v (fun v n => some (moveTo v (v.row + n) 0))  -- E
  else if final = 0x46#8 then withCount v (fun v n => some (moveTo v (v.row - n) 0))  -- F
  else if final = 0x47#8 then withCount v (fun v n => some (moveTo v v.row (n - 1)))  -- G
  else if final = 0x48#8 ∨ final = 0x66#8 then position v  -- H, f
  else if final = 0x4a#8 then vtEd v  -- J
  else if final = 0x4b#8 then vtEl v  -- K
  else if final = 0x4c#8 then withCount v (fromCursor vtScrollDown)  -- L
  else if final = 0x4d#8 then withCount v (fromCursor vtScrollUp)  -- M
  else if final = 0x40#8 then withCount v insertChars  -- @
  else if final = 0x50#8 then withCount v deleteChars  -- P
  else if final = 0x53#8 then withCount v vtScrollUp  -- S
  else if final = 0x54#8 then withCount v vtScrollDown  -- T
  else if final = 0x6d#8 then vtSgr v  -- m
  else if final = 0x72#8 then setRegion v  -- r
  else if final = 0x73#8 then some (saveCursor v)  -- s
  else if final = 0x75#8 then some (restoreCursor v)  -- u
  else if final = 0x68#8 then (if v.csiPrivate then vtDecsetDecrst v true else some v)  -- h
  else if final = 0x6c#8 then (if v.csiPrivate then vtDecsetDecrst v false else some v)  -- l
  else some v

def vtDispatchCsi (final : Byte) : Option Vt := do
  let v ← csiFinal v final
  some { vtClampCursor v with state := .ground }

def vtInit : Vt where
  cells := fun _ _ => ⟨0x20#8, vtColorDefault, vtColorDefault, 0#8⟩
  row := 0
  col := 0
  savedRow := 0
  savedCol := 0
  cur := defaultAttrs
  saved := defaultAttrs
  scrollTop := 0
  scrollBot := 23
  autowrap := true
  cursorVisible := true
  wrapPending := false
  state := .ground
  params := fun _ => 0
  nParams := 0
  csiPrivate := false
  bellPending := false
  dirtyTop := 24
  dirtyBot := -1

def feedGround : Option Vt :=
  if b = 0x1b#8 then some { v with state := .esc }
  else if b < 0x20#8 then vtCtl v b
  else if b < 0x7f#8 then vtPutPrintable v b
  else if b = 0x7f#8 then some v
  else vtPutPrintable v b

def feedEsc : Option Vt :=
  if b = 0x5b#8 then writeParam { v with state := .csi, nParams := 0, csiPrivate := false } 0 0
  else vtHandleEsc v b

/-- A digit joins the last parameter; the product wraps. -/
def feedDigit : Option Vt := do
  let v := if v.nParams = 0 then { v with nParams := 1 } else v
  let idx := v.nParams - 1
  let p ← readParam v idx
  writeParam v idx (toInt32 (p * 10 + (b.toNat - 0x30)))

def feedCsi : Option Vt :=
  if b = 0x3f#8 ∧ v.nParams = 0 then some { v with csiPrivate := true }
  else if 0x30#8 ≤ b ∧ b ≤ 0x39#8 then feedDigit v b
  else if b = 0x3b#8 then
    if v.nParams < 16 then writeParam { v with nParams := v.nParams + 1 } v.nParams 0 else some v
  else if 0x40#8 ≤ b ∧ b ≤ 0x7e#8 then vtDispatchCsi v b
  else some v

def vtFeed : Option Vt :=
  match v.state with
  | .ground => feedGround v b
  | .esc => feedEsc v b
  | .csi => feedCsi v b

end

def vtFeedBytes : Vt → List Byte → Option Vt
  | v, [] => some v
  | v, b :: rest => do
    let v ← vtFeed v b
    vtFeedBytes v rest

end Kappara.Terminal
