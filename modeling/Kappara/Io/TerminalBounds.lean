import Kappara.Io.Terminal

/-! Every access of the terminal emulator stays in its arrays, except those of ICH
and DCH with a count that has wrapped negative. ESC c blanks the grid and keeps the
saved cursor. -/

set_option autoImplicit false

namespace Kappara.Terminal

open Loops

variable {v : Vt}

/-- The scroll region and the parameters; the cursor may be anywhere until it is clamped. -/
structure Tidy (v : Vt) : Prop where
  region : 0 ≤ v.scrollTop ∧ v.scrollTop ≤ v.scrollBot ∧ v.scrollBot < 24
  count : 0 ≤ v.nParams ∧ v.nParams ≤ 16
  ints : ∀ i, -2147483648 ≤ v.params i ∧ v.params i < 2147483648

structure InGrid (v : Vt) : Prop extends Tidy v where
  row : 0 ≤ v.row ∧ v.row < 24
  col : 0 ≤ v.col ∧ v.col < 80

/-- Only cells and the dirty range differ. -/
def Paints (v v' : Vt) : Prop :=
  ∃ cells top bot, v' = { v with cells := cells, dirtyTop := top, dirtyBot := bot }

theorem Paints.refl (v : Vt) : Paints v v := ⟨_, _, _, rfl⟩

variable {v' : Vt} {row col i n : Int} {body : Int → Vt → Option Vt} {act : Vt → Int → Option Vt}
variable {final : Byte}

theorem Paints.trans {v v'' : Vt} (first : Paints v v') (second : Paints v' v'') : Paints v v'' := by
  obtain ⟨_, _, _, rfl⟩ := first
  obtain ⟨_, _, _, rfl⟩ := second
  exact ⟨_, _, _, rfl⟩

theorem Paints.inGrid {v : Vt} (paints : Paints v v') (grid : InGrid v) : InGrid v' := by
  obtain ⟨_, _, _, rfl⟩ := paints
  exact { grid with }

theorem Paints.tidy {v : Vt} (paints : Paints v v') (tidy : Tidy v) : Tidy v' := by
  obtain ⟨_, _, _, rfl⟩ := paints
  exact { tidy with }

theorem vtDirtyRow_paints (row : Int) : Paints v (vtDirtyRow v row) := by
  rw [vtDirtyRow]
  split
  · exact .refl v
  · exact ⟨_, _, _, rfl⟩

theorem vtDirtyRange_paints (top bot : Int) : Paints v (vtDirtyRange v top bot) := by
  rw [vtDirtyRange]
  generalize (if top < 0 then 0 else top) = first
  generalize (if 24 ≤ bot then 23 else bot) = last
  split
  · exact .refl v
  · exact ⟨_, _, _, rfl⟩

theorem writeCell_gives (v : Vt) (cell : VtCell) (inRow : 0 ≤ row ∧ row < 24)
    (inCol : 0 ≤ col ∧ col < 80) : Gives (writeCell v row col cell) (Paints v) :=
  (index_gives inRow.1 inRow.2).bind fun _ _ => (index_gives inCol.1 inCol.2).bind fun _ _ => .here ⟨_, _, _, rfl⟩

theorem readCell_gives (v : Vt) (inRow : 0 ≤ row ∧ row < 24) (inCol : 0 ≤ col ∧ col < 80) :
    Gives (readCell v row col) fun _ => True :=
  (index_gives inRow.1 inRow.2).bind fun _ _ => (index_gives inCol.1 inCol.2).bind fun _ _ => .here trivial

theorem writeCell_outside (cell : VtCell) (outside : col < 0 ∨ 80 ≤ col) : writeCell v row col cell = none := by
  have missing : index 80 col = none := index_none outside
  rw [writeCell, missing]
  cases index 24 row <;> rfl

theorem readCell_outside (outside : col < 0 ∨ 80 ≤ col) : readCell v row col = none := by
  have missing : index 80 col = none := index_none outside
  rw [readCell, missing]
  cases index 24 row <;> rfl

theorem up_paints {n : Nat}
    (round : ∀ j w, i ≤ j → j < i + n → Paints v w → Gives (body j w) (Paints w)) : Gives (up body i n v) (Paints v) :=
  up_keeps (fun j w low high painted => (round j w low high painted).mono fun _ more => painted.trans more) (.refl v)

theorem down_paints {n : Nat}
    (round : ∀ j w, i - n < j → j ≤ i → Paints v w → Gives (body j w) (Paints w)) :
    Gives (down body i n v) (Paints v) :=
  down_keeps (fun j w low high painted => (round j w low high painted).mono fun _ more => painted.trans more) (.refl v)

theorem vtClearRow_paints (v : Vt) (row colStart colEnd : Int) :
    Gives (vtClearRow v row colStart colEnd) (Paints v) := by
  have first : 0 ≤ if colStart < 0 then 0 else colStart := by split <;> omega
  have last : (if 80 < colEnd then 80 else colEnd) ≤ 80 := by split <;> omega
  rw [vtClearRow]
  generalize (if colStart < 0 then 0 else colStart) = left at first ⊢
  generalize (if 80 < colEnd then 80 else colEnd) = right at last ⊢
  by_cases outside : row < 0 ∨ 24 ≤ row
  · rw [if_pos outside]
    exact .here (.refl v)
  · rw [if_neg outside]
    dsimp only
    split
    · exact .here (.refl v)
    · refine .bind (up_paints fun c w low high _ => ?_) fun w painted => .here (painted.trans (vtDirtyRow_paints row))
      exact writeCell_gives w _ (by omega) (by omega)

theorem vtClearRegion_paints (v : Vt) (rStart rEnd : Int) : Gives (vtClearRegion v rStart rEnd) (Paints v) :=
  up_paints fun r w _ _ _ => vtClearRow_paints w r 0 80

theorem copyRow_paints (v : Vt) {dst src : Int} (target : 0 ≤ dst ∧ dst < 24) (source : 0 ≤ src ∧ src < 24) :
    Gives (copyRow v dst src) (Paints v) :=
  up_paints fun _ w _ _ _ => (readCell_gives w source (by omega)).bind fun cell _ =>
    writeCell_gives w cell target (by omega)

theorem vtScrollUp_paints (tidy : Tidy v) (n : Int) : Gives (vtScrollUp v n) (Paints v) := by
  have region := tidy.region
  by_cases none : n ≤ 0
  · rw [vtScrollUp, if_pos none]
    exact .here (.refl v)
  · rw [vtScrollUp, if_neg none, if_neg (by omega)]
    refine .bind (up_paints fun r w low high _ => copyRow_paints w (by omega) (by omega)) fun w moved => ?_
    refine .bind (up_paints fun r w _ _ _ => vtClearRow_paints w r 0 80) fun w cleared => ?_
    exact .here ((moved.trans cleared).trans (vtDirtyRange_paints _ _))

theorem vtScrollDown_paints (tidy : Tidy v) (n : Int) : Gives (vtScrollDown v n) (Paints v) := by
  have region := tidy.region
  by_cases none : n ≤ 0
  · rw [vtScrollDown, if_pos none]
    exact .here (.refl v)
  · rw [vtScrollDown, if_neg none, if_neg (by omega)]
    refine .bind (down_paints fun r w low high _ => copyRow_paints w (by omega) (by omega)) fun w moved => ?_
    refine .bind (up_paints fun r w _ _ _ => vtClearRow_paints w r 0 80) fun w cleared => ?_
    exact .here ((moved.trans cleared).trans (vtDirtyRange_paints _ _))

theorem Tidy.place {pending bell : Bool} (tidy : Tidy v) (inRow : 0 ≤ row ∧ row < 24) (inCol : 0 ≤ col ∧ col < 80) :
    InGrid { v with row := row, col := col, wrapPending := pending, bellPending := bell } :=
  ⟨{ tidy with }, inRow, inCol⟩

section

variable (grid : InGrid v)
include grid

theorem InGrid.settle {pending bell : Bool} : InGrid { v with wrapPending := pending, bellPending := bell } :=
  grid.place grid.row grid.col

theorem InGrid.newline : InGrid { v with col := 0 } := grid.place grid.row (by decide)

theorem vtCursorDown_inGrid : Gives (vtCursorDown v) InGrid :=
  have inRow := grid.row
  .ite (fun _ => (vtScrollUp_paints grid.toTidy 1).mono fun _ paints => paints.inGrid grid) fun _ =>
    .ite (fun _ => .here (grid.place (by omega) grid.col)) fun _ => .here grid

theorem vtCursorUpScroll_inGrid : Gives (vtCursorUpScroll v) InGrid :=
  have inRow := grid.row
  .ite (fun _ => (vtScrollDown_paints grid.toTidy 1).mono fun _ paints => paints.inGrid grid) fun _ =>
    .ite (fun _ => .here (grid.place (by omega) grid.col)) fun _ => .here grid

theorem vtWrap_inGrid : Gives (vtWrap v) InGrid :=
  .ite (fun _ => (vtCursorDown_inGrid grid.newline).bind fun _ kept => .here kept.settle) fun _ => .here grid

theorem vtPutPrintable_inGrid (ch : Byte) : Gives (vtPutPrintable v ch) InGrid := by
  refine (vtWrap_inGrid grid).bind fun w wrapped => ?_
  refine (writeCell_gives w _ wrapped.row wrapped.col).bind fun u painted => ?_
  have kept := (painted.trans (vtDirtyRow_paints u.row)).inGrid wrapped
  have inCol := kept.col
  refine .ite (fun _ => .here ?_) fun _ => .here (kept.place kept.row (by omega))
  split
  · exact kept.settle
  · exact kept

theorem vtCtl_inGrid (b : Byte) : Gives (vtCtl v b) InGrid := by
  have inCol := grid.col
  refine .ite (fun _ => .here grid.settle) fun _ => ?_
  refine .ite (fun _ => .here (grid.place grid.row (by split <;> omega))) fun _ => ?_
  refine .ite (fun _ => .here (grid.place grid.row (by split <;> omega))) fun _ => ?_
  refine .ite (fun _ => (vtCursorDown_inGrid grid).bind fun _ kept => .here kept.settle) fun _ => ?_
  exact .ite (fun _ => .here (grid.place grid.row (by decide))) fun _ => .here grid

end

theorem clamp_bounds (x : Int) {bound : Int} (positive : 0 < bound) : 0 ≤ clamp x bound ∧ clamp x bound < bound := by
  rw [clamp]
  split
  · omega
  · split <;> omega

theorem Tidy.clamped (tidy : Tidy v) : InGrid (vtClampCursor v) :=
  tidy.place (clamp_bounds _ (by decide)) (clamp_bounds _ (by decide))

theorem escFinal_inGrid (grid : InGrid v) (b : Byte) : Gives (escFinal v b) InGrid := by
  have settled {u : Vt} (down : Gives (vtCursorDown u) InGrid) :
      Gives (vtCursorDown u >>= fun w => some { w with wrapPending := false }) InGrid :=
    down.bind fun _ kept => .here kept.settle
  refine .ite (fun _ => ?_) fun _ => ?_
  · have reset : Tidy (vtResetDefaults v) :=
      ⟨show (0 : Int) ≤ 0 ∧ (0 : Int) ≤ 23 ∧ (23 : Int) < 24 by decide, grid.count, grid.ints⟩
    exact (vtClearRegion_paints (vtResetDefaults v) 0 24).bind fun w painted =>
      .here ((painted.tidy reset).place (by decide) (by decide))
  · refine .ite (fun _ => settled (vtCursorDown_inGrid grid)) fun _ => ?_
    refine .ite (fun _ => (vtCursorUpScroll_inGrid grid).bind fun _ kept => .here kept.settle) fun _ => ?_
    refine .ite (fun _ => settled (vtCursorDown_inGrid grid.newline)) fun _ => ?_
    refine .ite (fun _ => .here { grid with }) fun _ => ?_
    exact .ite (fun _ => .here (Tidy.clamped { grid.toTidy with })) fun _ => .here grid

section

variable (tidy : Tidy v)
include tidy

theorem readParam_gives (low : 0 ≤ i) (high : i < v.nParams) : Gives (readParam v i) (-2147483648 ≤ ·) :=
  have count := tidy.count
  (index_gives low (by omega)).bind fun k _ => .here (tidy.ints k).1

theorem vtP_gives {default : Int} (low : 0 ≤ i) (small : -2147483648 ≤ default) :
    Gives (vtP v i default) (-2147483648 ≤ ·) :=
  .ite (fun _ => .here small) fun _ => (readParam_gives tidy low (by omega)).bind fun p least => .here (by
    split
    · exact small
    · exact least)

theorem params_tidy (act : Vt → Int → Vt) (keep : ∀ w p, Tidy w → Tidy (act w p) ∧ (act w p).nParams = w.nParams) :
    Gives (up (fun i w => do
      let p ← readParam w i
      some (act w p)) 0 v.nParams.toNat v) Tidy := by
  have walk : Gives (up (fun i w => do
      let p ← readParam w i
      some (act w p)) 0 v.nParams.toNat v) fun w => Tidy w ∧ w.nParams = v.nParams := by
    refine up_keeps (fun j w low high kept => ?_) ⟨tidy, rfl⟩
    refine (readParam_gives kept.1 low (by omega)).bind fun p _ => .here ?_
    obtain ⟨still, same⟩ := keep w p kept.1
    exact ⟨still, same.trans kept.2⟩
  exact walk.mono fun w kept => kept.1

theorem vtSgr_tidy : Gives (vtSgr v) Tidy :=
  .ite (fun _ => .here { tidy with }) fun _ =>
    params_tidy tidy _ fun _ _ kept => ⟨{ kept with }, rfl⟩

theorem vtDecsetDecrst_tidy (set : Bool) : Gives (vtDecsetDecrst v set) Tidy := by
  refine params_tidy tidy (fun w p => if p = 7 then { w with autowrap := set }
    else if p = 25 then { w with cursorVisible := set } else w) fun w p kept => ?_
  split_ifs
  · exact ⟨{ kept with }, rfl⟩
  · exact ⟨{ kept with }, rfl⟩
  · exact ⟨kept, rfl⟩

theorem vtEd_paints : Gives (vtEd v) (Paints v) := by
  refine (vtP_gives tidy (Int.le_refl 0) (by decide)).bind fun mode _ => ?_
  split_ifs
  · exact (vtClearRow_paints v _ _ _).bind fun w first => (vtClearRegion_paints w _ _).mono fun _ more =>
      first.trans more
  · exact (vtClearRegion_paints v _ _).bind fun w first => (vtClearRow_paints w _ _ _).mono fun _ more =>
      first.trans more
  · exact vtClearRegion_paints v _ _
  · exact .here (.refl v)

theorem vtEl_paints : Gives (vtEl v) (Paints v) := by
  refine (vtP_gives tidy (Int.le_refl 0) (by decide)).bind fun mode _ => ?_
  split_ifs
  · exact vtClearRow_paints v _ _ _
  · exact vtClearRow_paints v _ _ _
  · exact vtClearRow_paints v _ _ _
  · exact .here (.refl v)

theorem withCount_tidy (acts : ∀ n, Gives (act v n) Tidy) : Gives (withCount v act) Tidy :=
  (vtP_gives tidy (Int.le_refl 0) (by decide)).bind fun n _ => acts n

end

theorem fromCursor_tidy (grid : InGrid v) {scroll : Vt → Int → Option Vt} (n : Int)
    (paints : ∀ w, Tidy w → Gives (scroll w n) (Paints w)) : Gives (fromCursor scroll v n) Tidy := by
  have region := grid.region
  rw [fromCursor]
  split
  next inside =>
    refine (paints { v with scrollTop := v.row } ⟨⟨grid.row.1, inside.2, region.2.2⟩, grid.count, grid.ints⟩).bind
      fun w painted => .here ?_
    obtain ⟨_, _, _, rfl⟩ := painted
    exact ⟨region, grid.count, grid.ints⟩
  · exact .here grid.toTidy

theorem setRegion_tidy (tidy : Tidy v) : Gives (setRegion v) Tidy := by
  refine (vtP_gives tidy (Int.le_refl 0) (by decide)).bind fun top _ => ?_
  refine (vtP_gives tidy (by decide) (by decide)).bind fun bot _ => .here ?_
  generalize toInt32 (top - 1) = first
  generalize toInt32 (bot - 1) = last
  have low : 0 ≤ if first < 0 then 0 else first := by split <;> omega
  have high : (if 24 ≤ last then 23 else last) < 24 := by split <;> omega
  generalize (if first < 0 then 0 else first) = left at low ⊢
  generalize (if 24 ≤ last then 23 else last) = right at high ⊢
  split
  next ordered => exact ⟨⟨low, Int.le_of_lt ordered, high⟩, tidy.count, tidy.ints⟩
  · exact tidy

theorem copyCell_paints (grid : InGrid v) {dst src : Int} (target : 0 ≤ dst ∧ dst < 80) (source : 0 ≤ src ∧ src < 80) :
    Gives (copyCell v dst src) (Paints v) :=
  (readCell_gives v grid.row source).bind fun cell _ => writeCell_gives v cell grid.row target

theorem blankCols_paints (grid : InGrid v) {first stop : Int} (low : 0 ≤ first) (high : stop ≤ 80) :
    Gives (blankCols v first stop) (Paints v) :=
  up_paints fun c w above below painted => writeCell_gives w _ (painted.inGrid grid).row (by omega)

theorem toInt32_small {x : Int} (low : -2147483648 ≤ x) (high : x < 2147483648) : toInt32 x = x := by
  rw [toInt32]
  omega

section

variable (grid : InGrid v) (positive : 0 ≤ n)
include grid positive

theorem restOfRow_bounds : 0 ≤ restOfRow v n ∧ restOfRow v n ≤ 80 - v.col := by
  have inCol := grid.col
  rw [restOfRow]
  split <;> omega

theorem insertChars_paints : Gives (insertChars v n) (Paints v) := by
  have inCol := grid.col
  have count := restOfRow_bounds grid positive
  rw [insertChars]
  generalize restOfRow v n = m at count
  rw [toInt32_small (by omega) (by omega)]
  refine .bind (down_paints fun c w low high painted => ?_) fun w moved => ?_
  · rw [toInt32_small (by omega) (by omega)]
    exact copyCell_paints (painted.inGrid grid) (by omega) (by omega)
  · refine (blankCols_paints (moved.inGrid grid) (moved.inGrid grid).col.1 (by omega)).bind fun u blanked => ?_
    exact .here ((moved.trans blanked).trans (vtDirtyRow_paints _))

theorem deleteChars_paints : Gives (deleteChars v n) (Paints v) := by
  have inCol := grid.col
  have count := restOfRow_bounds grid positive
  rw [deleteChars]
  generalize restOfRow v n = m at count
  rw [toInt32_small (by omega) (by omega)]
  refine .bind (up_paints fun c w low high painted => ?_) fun w moved => ?_
  · rw [toInt32_small (by omega) (by omega)]
    exact copyCell_paints (painted.inGrid grid) (by omega) (by omega)
  · refine (blankCols_paints (moved.inGrid grid) (by omega) (Int.le_refl 80)).bind fun u blanked => ?_
    exact .here ((moved.trans blanked).trans (vtDirtyRow_paints _))

end

/-- ICH with a negative count reads right of the row in its first round. -/
theorem insertChars_outside (grid : InGrid v) (low : -2147483648 ≤ n) (negative : n < 0) : insertChars v n = none := by
  have inCol := grid.col
  have count : restOfRow v n = n := by rw [restOfRow, if_neg (by omega)]
  have stuck : ∀ w : Vt, copyCell w 79 (toInt32 (79 - n)) = none := by
    intro w
    rw [copyCell, readCell_outside (by rw [toInt32]; omega)]
    rfl
  rw [insertChars, count, toInt32_small (by omega) (by omega)]
  rw [down_fails stuck (by omega)]
  rfl

/-- DCH with a negative count writes right of the row, or left of it when the column computed from the
count wraps. -/
theorem deleteChars_outside (grid : InGrid v) (low : -2147483648 ≤ n) (negative : n < 0) : deleteChars v n = none := by
  have inCol := grid.col
  have count : restOfRow v n = n := by rw [restOfRow, if_neg (by omega)]
  have stuck : ∀ w : Vt, copyCell w 80 (toInt32 (80 + n)) = none := by
    intro w
    rw [copyCell]
    cases readCell w w.row (toInt32 (80 + n)) with
    | none => rfl
    | some cell => exact writeCell_outside cell (.inr (by decide))
  rw [deleteChars, count]
  by_cases wraps : 80 - n < 2147483648
  · rw [toInt32_small (by omega) wraps, up_fails stuck (by omega) (by omega)]
    rfl
  · have left : toInt32 (80 - n) < 0 := by rw [toInt32]; omega
    generalize toInt32 (80 - n) = stop at left
    rw [show (stop - v.col).toNat = 0 by omega]
    show blankCols v stop 80 >>= _ = none
    have off : ∀ w : Vt, writeCell w w.row stop (blank w) = none := fun w => writeCell_outside _ (.inl left)
    rw [blankCols, up_fails off (by omega) (by omega)]
    rfl

/-- The byte ends ICH or DCH, and the count has wrapped negative. -/
def negativeCount (v : Vt) (b : Byte) : Bool :=
  v.state = .csi && (b = 0x40#8 || b = 0x50#8) && (vtP v 0 1).any (· < 0)

theorem withCount_chars (tidy : Tidy v)
    (paints : ∀ n, 0 ≤ n → Gives (act v n) (Paints v)) (fails : ∀ n, -2147483648 ≤ n → n < 0 → act v n = none) :
    if (vtP v 0 1).any (· < 0) then withCount v act = none else Gives (withCount v act) Tidy := by
  obtain ⟨n, read, least⟩ := vtP_gives tidy (Int.le_refl 0) (show -2147483648 ≤ (1 : Int) by decide)
  have counted : withCount v act = act v n := by rw [withCount, read]; rfl
  rw [read, Option.any_some, counted]
  by_cases negative : n < 0
  · rw [if_pos (decide_eq_true negative)]
    exact fails n least negative
  · rw [if_neg (by simpa using negative)]
    exact (paints n (by omega)).mono fun _ painted => painted.tidy tidy

section

variable (grid : InGrid v)
include grid

theorem insertChars_counts :
    if (vtP v 0 1).any (· < 0) then withCount v insertChars = none else Gives (withCount v insertChars) Tidy :=
  withCount_chars grid.toTidy (fun _ => insertChars_paints grid) fun _ => insertChars_outside grid

theorem deleteChars_counts :
    if (vtP v 0 1).any (· < 0) then withCount v deleteChars = none else Gives (withCount v deleteChars) Tidy :=
  withCount_chars grid.toTidy (fun _ => deleteChars_paints grid) fun _ => deleteChars_outside grid

theorem csiFinal_tidy
    (spared : final = 0x40#8 ∨ final = 0x50#8 → (vtP v 0 1).any (· < 0) = false) : Gives (csiFinal v final) Tidy := by
  have tidy := grid.toTidy
  have moved (row col : Int) : Tidy (moveTo v row col) := { tidy with }
  have painted {made : Option Vt} (gives : Gives made (Paints v)) : Gives made Tidy :=
    gives.mono fun _ paints => paints.tidy tidy
  have chars {act : Vt → Int → Option Vt} (counts : (vtP v 0 1).any (· < 0) = false)
      (either : if (vtP v 0 1).any (· < 0) then withCount v act = none else Gives (withCount v act) Tidy) :
      Gives (withCount v act) Tidy := by
    rwa [counts] at either
  -- the cursor moves A to G
  iterate 7
    refine .ite (fun _ => withCount_tidy tidy fun _ => .here (moved _ _)) fun _ => ?_
  refine .ite (fun _ => ?_) fun _ => ?_
  · refine (vtP_gives tidy (Int.le_refl 0) (by decide)).bind fun row _ => ?_
    exact (vtP_gives tidy (by decide) (by decide)).bind fun col _ => .here (moved _ _)
  refine .ite (fun _ => painted (vtEd_paints tidy)) fun _ => ?_
  refine .ite (fun _ => painted (vtEl_paints tidy)) fun _ => ?_
  refine .ite (fun _ => withCount_tidy tidy fun n => ?_) fun _ => ?_
  · exact fromCursor_tidy grid n fun _ kept => vtScrollDown_paints kept n
  refine .ite (fun _ => withCount_tidy tidy fun n => ?_) fun _ => ?_
  · exact fromCursor_tidy grid n fun _ kept => vtScrollUp_paints kept n
  refine .ite (fun here => chars (spared (.inl here)) (insertChars_counts grid)) fun _ => ?_
  refine .ite (fun here => chars (spared (.inr here)) (deleteChars_counts grid)) fun _ => ?_
  refine .ite (fun _ => withCount_tidy tidy fun n => painted (vtScrollUp_paints tidy n)) fun _ => ?_
  refine .ite (fun _ => withCount_tidy tidy fun n => painted (vtScrollDown_paints tidy n)) fun _ => ?_
  refine .ite (fun _ => vtSgr_tidy tidy) fun _ => ?_
  refine .ite (fun _ => setRegion_tidy tidy) fun _ => ?_
  refine .ite (fun _ => .here { tidy with }) fun _ => ?_
  refine .ite (fun _ => .here { tidy with }) fun _ => ?_
  have mode (set : Bool) : Gives (if v.csiPrivate then vtDecsetDecrst v set else some v) Tidy :=
    .ite (fun _ => vtDecsetDecrst_tidy tidy set) fun _ => .here tidy
  exact .ite (fun _ => mode true) fun _ => .ite (fun _ => mode false) fun _ => .here tidy

theorem csiFinal_fails (chars : final = 0x40#8 ∨ final = 0x50#8)
    (negative : (vtP v 0 1).any (· < 0) = true) : csiFinal v final = none := by
  rcases chars with rfl | rfl
  · have fails := insertChars_counts grid
    rwa [if_pos negative] at fails
  · have fails := deleteChars_counts grid
    rwa [if_pos negative] at fails

theorem writeParam_inGrid {value : Int} (low : 0 ≤ i) (high : i < 16)
    (small : -2147483648 ≤ value ∧ value < 2147483648) : Gives (writeParam v i value) InGrid := by
  refine (index_gives low high).bind fun k _ => .here ⟨⟨grid.region, grid.count, fun j => ?_⟩, grid.row, grid.col⟩
  by_cases here : j = k
  · subst here
    simpa using small
  · simpa [here] using grid.ints j

end

theorem toInt32_bounds (x : Int) : -2147483648 ≤ toInt32 x ∧ toInt32 x < 2147483648 := by
  rw [toInt32]
  omega

theorem InGrid.collect {count : Int} {state : VtState} {priv : Bool} (grid : InGrid v)
    (inside : 0 ≤ count ∧ count ≤ 16) : InGrid { v with nParams := count, state := state, csiPrivate := priv } :=
  ⟨⟨grid.region, inside, grid.ints⟩, grid.row, grid.col⟩

theorem feedDigit_inGrid (grid : InGrid v) (b : Byte) : Gives (feedDigit v b) InGrid := by
  have count := grid.count
  have started : ∃ w, (if v.nParams = 0 then { v with nParams := 1 } else v) = w ∧ InGrid w ∧ 1 ≤ w.nParams := by
    split
    · exact ⟨_, rfl, grid.collect (by decide), Int.le_refl 1⟩
    · exact ⟨v, rfl, grid, by omega⟩
  obtain ⟨w, eq, kept, one⟩ := started
  have most := kept.count
  rw [feedDigit, eq]
  refine (readParam_gives kept.toTidy (by omega) (by omega)).bind fun p _ => ?_
  exact writeParam_inGrid kept (by omega) (by omega) (toInt32_bounds _)

theorem vtDispatchCsi_inGrid (grid : InGrid v)
    (spared : final = 0x40#8 ∨ final = 0x50#8 → (vtP v 0 1).any (· < 0) = false) :
    Gives (vtDispatchCsi v final) InGrid :=
  (csiFinal_tidy grid spared).bind fun _ tidy =>
    .here ⟨{ tidy with }, tidy.clamped.row, tidy.clamped.col⟩

theorem feedCsi_inGrid (grid : InGrid v) {b : Byte}
    (spared : b = 0x40#8 ∨ b = 0x50#8 → (vtP v 0 1).any (· < 0) = false) : Gives (feedCsi v b) InGrid := by
  have count := grid.count
  refine .ite (fun _ => .here { grid with }) fun _ => ?_
  refine .ite (fun _ => feedDigit_inGrid grid b) fun _ => ?_
  refine .ite (fun _ => .ite (fun room => ?_) fun _ => .here grid) fun _ => ?_
  · exact writeParam_inGrid (grid.collect (by omega)) count.1 room (by decide)
  · exact .ite (fun _ => vtDispatchCsi_inGrid grid spared) fun _ => .here grid

theorem feedCsi_chars {b : Byte} (chars : b = 0x40#8 ∨ b = 0x50#8) : feedCsi v b = vtDispatchCsi v b := by
  rcases chars with rfl | rfl <;> rfl

theorem feedGround_inGrid (grid : InGrid v) (b : Byte) : Gives (feedGround v b) InGrid := by
  refine .ite (fun _ => .here { grid with }) fun _ => ?_
  refine .ite (fun _ => vtCtl_inGrid grid b) fun _ => ?_
  refine .ite (fun _ => vtPutPrintable_inGrid grid b) fun _ => ?_
  exact .ite (fun _ => .here grid) fun _ => vtPutPrintable_inGrid grid b

theorem feedEsc_inGrid (grid : InGrid v) (b : Byte) : Gives (feedEsc v b) InGrid := by
  refine .ite (fun _ => writeParam_inGrid (grid.collect (by decide)) (Int.le_refl 0) (by decide) (by decide))
    fun _ => ?_
  exact (escFinal_inGrid grid b).bind fun _ kept =>
      .here { kept with }

/-- One byte: the accesses are inside and the cursor stays in the grid exactly without a negative count. -/
theorem vtFeed_inGrid (grid : InGrid v) (b : Byte) : Gives (vtFeed v b) InGrid ↔ negativeCount v b = false := by
  rw [vtFeed, negativeCount]
  cases state : v.state with
  | ground => exact iff_of_true (feedGround_inGrid grid b) rfl
  | esc => exact iff_of_true (feedEsc_inGrid grid b) rfl
  | csi =>
    by_cases chars : b = 0x40#8 ∨ b = 0x50#8
    · have final : (decide (b = 0x40#8) || decide (b = 0x50#8)) = true := by simpa using chars
      rw [final]
      constructor
      · intro gives
        by_contra negative
        obtain ⟨w, made, -⟩ := gives
        rw [feedCsi_chars chars, vtDispatchCsi,
          csiFinal_fails grid chars (Bool.eq_true_of_not_eq_false negative)] at made
        cases made
      · intro counts
        exact feedCsi_inGrid grid fun _ => counts
    · have plain : (decide (b = 0x40#8) || decide (b = 0x50#8)) = false := by simpa using chars
      refine iff_of_true (feedCsi_inGrid grid fun final => absurd final chars) ?_
      rw [plain, Bool.and_false, Bool.false_and]

/-- Every byte of the sequence is processed with accesses inside the arrays, and before and after each
the cursor, the scroll region and the number of parameters are in their ranges. -/
def Safe : Vt → List Byte → Prop
  | v, [] => InGrid v
  | v, b :: rest => InGrid v ∧ Gives (vtFeed v b) fun w => Safe w rest

def Spared : Vt → List Byte → Prop
  | _, [] => True
  | v, b :: rest => negativeCount v b = false ∧ ∀ w, vtFeed v b = some w → Spared w rest

theorem InGrid.safe_iff (grid : InGrid v) (bytes : List Byte) : Safe v bytes ↔ Spared v bytes := by
  induction bytes generalizing v with
  | nil => exact iff_of_true grid trivial
  | cons b rest ih =>
    constructor
    · rintro ⟨-, w, made, safe⟩
      have kept : InGrid w := by
        cases rest with
        | nil => exact safe
        | cons => exact safe.1
      refine ⟨(vtFeed_inGrid grid b).mp ⟨w, made, kept⟩, fun u again => ?_⟩
      obtain rfl := Option.some.inj (made.symm.trans again)
      exact (ih kept).mp safe
    · rintro ⟨counts, spared⟩
      obtain ⟨w, made, kept⟩ := (vtFeed_inGrid grid b).mpr counts
      exact ⟨grid, w, made, (ih kept).mpr (spared w made)⟩

theorem vtInit_inGrid : InGrid vtInit :=
  ⟨⟨by decide, by decide, fun _ => show (-2147483648 : Int) ≤ 0 ∧ (0 : Int) < 2147483648 by decide⟩, by decide,
    by decide⟩

/-- A byte sequence fed after vt_init is processed safely exactly when no ICH or DCH in it has a count
that wraps negative. -/
theorem feed_safe_iff_spared (bytes : List Byte) : Safe vtInit bytes ↔ Spared vtInit bytes :=
  vtInit_inGrid.safe_iff bytes

theorem Safe.fed {bytes : List Byte} (safe : Safe v bytes) : (vtFeedBytes v bytes).isSome = true := by
  induction bytes generalizing v with
  | nil => rfl
  | cons b rest ih =>
    obtain ⟨-, w, made, safe⟩ := safe
    rw [vtFeedBytes, made]
    exact ih safe

/-- ESC [ 24 H and ESC [ 4294967295 @: the insertion reads beyond the last cell of the grid. -/
theorem insert_reads_outside :
    let bytes := [0x1b#8, 0x5b#8, 0x32#8, 0x34#8, 0x48#8, 0x1b#8, 0x5b#8, 0x34#8, 0x32#8, 0x39#8, 0x34#8, 0x39#8,
      0x36#8, 0x37#8, 0x32#8, 0x39#8, 0x35#8]
    (vtFeedBytes vtInit bytes).any (fun v => v.row = 23 && vtP v 0 1 == some (-1)) = true ∧
      ¬ Safe vtInit (bytes ++ [0x40#8]) := by
  refine ⟨by decide +kernel, fun safe => ?_⟩
  have fed := safe.fed
  revert fed
  decide +kernel

section Reset

variable {w : Vt}

def Blanked (v : Vt) (row col : Int) (w : Vt) : Prop :=
  Paints v w ∧ ∀ (r : Fin 24) (c : Fin 80), r < row ∨ r = row ∧ c < col → w.cells r c = blank v

theorem Blanked.write (blanked : Blanked v row col w) (inRow : 0 ≤ row ∧ row < 24) (inCol : 0 ≤ col ∧ col < 80) :
    Gives (writeCell w row col (blank w)) (Blanked v row (col + 1)) := by
  obtain ⟨⟨_, _, _, rfl⟩, blanks⟩ := blanked
  refine (index_gives inRow.1 inRow.2).bind fun r here => (index_gives inCol.1 inCol.2).bind fun c there => .here ?_
  refine ⟨⟨_, _, _, rfl⟩, fun r' c' before => ?_⟩
  dsimp only
  rw [Function.update_apply]
  split
  next same =>
    subst same
    rw [Function.update_apply]
    split
    · rfl
    next other => exact blanks r' c' (by omega)
  next other => exact blanks r' c' (by omega)

theorem Blanked.clearRow (blanked : Blanked v row 0 w) (low : 0 ≤ row) (high : row < 24) :
    Gives (vtClearRow w row 0 80) (Blanked v (row + 1) 0) := by
  rw [vtClearRow, if_neg (by omega)]
  refine (up_counts (fun c u low high blanked => Blanked.write blanked (by omega) (by omega)) blanked).bind
    fun u blanked => .here ?_
  obtain ⟨paints, blanks⟩ := blanked
  refine ⟨paints.trans (vtDirtyRow_paints row), fun r c before => ?_⟩
  rw [vtDirtyRow, if_neg (by omega)]
  exact blanks r c (by omega)

theorem vtClearRegion_blanks (v : Vt) : Gives (vtClearRegion v 0 24) (Blanked v 24 0) := by
  have round (r : Int) (u : Vt) (low : 0 ≤ r) (high : r < 0 + (24 : Nat)) (blanked : Blanked v r 0 u) :
      Gives (vtClearRow u r 0 80) (Blanked v (r + 1) 0) := blanked.clearRow low high
  exact up_counts round ⟨.refl v, fun r c before => by omega⟩

/-- Everything but the parameters, the bell and the dirty range is as vt_init leaves it. -/
def Initial (v : Vt) : Prop :=
  ∃ params count csiPrivate bell top bot, v = { vtInit with
    params := params, nParams := count, csiPrivate := csiPrivate, bellPending := bell, dirtyTop :=
      top, dirtyBot := bot }

/-- What ESC c needs to end in the initial state. Between two sequences it resets all but the saved cursor. After an
ESC the second one only ends that sequence and the c is printed. In a control sequence ESC is dropped and c is a final
byte without a meaning, so that what is not initial already stays. -/
def Resets (v : Vt) : Prop :=
  match v.state with
  | .ground => v.savedRow = 0 ∧ v.savedCol = 0 ∧ v.saved = defaultAttrs
  | .esc => False
  | .csi => v.row ≤ 0 ∧ v.col ≤ 0 ∧ Initial { v with row := 0, col := 0, state := .ground }

theorem reset_ground (ground : v.state = .ground) : Gives (vtFeedBytes v [0x1b#8, 0x63#8]) fun w =>
    Initial w ↔ v.savedRow = 0 ∧ v.savedCol = 0 ∧ v.saved = defaultAttrs := by
  obtain ⟨w, cleared, ⟨cells, top, bot, rfl⟩, blanks⟩ := vtClearRegion_blanks (vtResetDefaults { v with state := .esc })
  have all : cells = vtInit.cells := funext₂ fun r c => blanks r c (.inl (by omega))
  subst all
  refine ⟨_, by simp [vtFeedBytes, vtFeed, ground, feedGround, feedEsc, vtHandleEsc, escFinal, cleared]; rfl, ?_⟩
  simp [Initial, vtInit, vtResetDefaults]

theorem writeCell_cell {row col : Int} {cell : VtCell} (written : writeCell v row col cell = some w) :
    ∃ r c, w.cells r c = cell := by
  simp only [writeCell, Option.bind_eq_bind, Option.bind_eq_some_iff, Option.some.injEq] at written
  obtain ⟨r, -, c, -, rfl⟩ := written
  exact ⟨r, c, by simp⟩

theorem vtPutPrintable_cell {ch : Byte} (printed : vtPutPrintable v ch = some w) : ∃ r c, (w.cells r c).ch = ch := by
  simp only [vtPutPrintable, Option.bind_eq_bind, Option.bind_eq_some_iff] at printed
  obtain ⟨_, -, t, written, rest⟩ := printed
  obtain ⟨r, c, put⟩ := writeCell_cell written
  have dirty : (vtDirtyRow t t.row).cells = t.cells := by rw [vtDirtyRow]; split <;> rfl
  have cells : w.cells = t.cells := by
    rw [← dirty]
    split at rest <;> cases rest
    · split <;> rfl
    · rfl
  exact ⟨r, c, by rw [cells, put]⟩

theorem printed_not_initial (printed : vtPutPrintable v 0x63#8 = some w) : ¬ Initial w := by
  obtain ⟨r, c, put⟩ := vtPutPrintable_cell printed
  rintro ⟨_, _, _, _, _, _, rfl⟩
  simp [vtInit] at put

theorem reset_csi (csi : v.state = .csi) :
    vtFeedBytes v [0x1b#8, 0x63#8] = some { vtClampCursor v with state := .ground } := by
  have dropped : vtFeed v 0x1b#8 = some v := by rw [vtFeed, csi]; rfl
  rw [vtFeedBytes, dropped]
  simp only [Option.bind_eq_bind, Option.bind_some, vtFeedBytes, vtFeed, csi]
  rfl

/-- ESC c ends in the initial state exactly if Resets holds, and ESC never starts anew within a control sequence. -/
theorem reset_initial_iff (v : Vt) :
    ((∃ w, vtFeedBytes v [0x1b#8, 0x63#8] = some w ∧ Initial w) ↔ Resets v) ∧
      (v.state = .csi → vtFeed v 0x1b#8 = some v) := by
  refine ⟨?_, fun csi => by rw [vtFeed, csi]; rfl⟩
  unfold Resets
  split
  next ground =>
    obtain ⟨w, fed, initial⟩ := reset_ground ground
    rw [← initial, fed]
    simp
  next esc =>
    simp only [iff_false, not_exists, not_and]
    intro w fed
    refine printed_not_initial (v := { v with state := .ground }) ?_
    simpa [vtFeedBytes, vtFeed, esc, feedEsc, vtHandleEsc, escFinal, feedGround] using fed
  next csi =>
    rw [reset_csi csi]
    simp only [Option.some.injEq, exists_eq_left']
    constructor
    · rintro ⟨params, count, csiPrivate, bell, top, bot, same⟩
      obtain ⟨row, col⟩ : clamp v.row 24 = 0 ∧ clamp v.col 80 = 0 := ⟨congrArg Vt.row same, congrArg Vt.col same⟩
      refine ⟨by grind [clamp], by grind [clamp], params, count, csiPrivate, bell, top, bot, ?_⟩
      rw [← same, vtClampCursor, row, col]
    · rintro ⟨row, col, initial⟩
      have clamped : clamp v.row 24 = 0 ∧ clamp v.col 80 = 0 := by grind [clamp]
      rwa [vtClampCursor, clamped.1, clamped.2]

/-- The cursor saved in column 1 survives ESC c; ESC ESC c prints the c; ESC [ ESC is still in the control sequence. -/
theorem reset_keeps_saved_cursor :
    (vtFeedBytes vtInit [0x41#8, 0x1b#8, 0x37#8, 0x1b#8, 0x63#8]).any (·.savedCol = 1) = true ∧
      (vtFeedBytes vtInit [0x1b#8, 0x1b#8, 0x63#8]).any (fun v => (v.cells 0 0).ch = 0x63#8) = true ∧
      (vtFeedBytes vtInit [0x1b#8, 0x5b#8, 0x1b#8]).any (·.state = .csi) = true := by
  decide +kernel

end Reset

end Kappara.Terminal
