import Dxgmx.Kstdlib.String
import Dxgmx.Library.ScrolledText

open Library

namespace Dxgmx

/-- The memory from `buf_vaddr` on, cell by cell. `stored` is a ghost: the cells stored to so far. -/
structure VgaBuffer where
  cells : Nat → BitVec 16
  stored : List Nat

def VgaBuffer.store (buf : VgaBuffer) (i : Nat) (cell : BitVec 16) : VgaBuffer where
  cells := Function.update buf.cells i cell
  stored := buf.stored ++ [i]

structure VgaTextRenderingContext where
  fg : BitVec 32
  bg : BitVec 32
  width : BitVec 8
  height : BitVec 8
  currentRow : BitVec 8
  currentCol : BitVec 8
  bufVaddr : VgaBuffer

def VgaTextRenderingContext.store (ctx : VgaTextRenderingContext) (i : Nat) (cell : BitVec 16) :
    VgaTextRenderingContext :=
  { ctx with bufVaddr := ctx.bufVaddr.store i cell }

def vgasinkClearCharAt (row col : BitVec 8) (ctx : VgaTextRenderingContext) :
    VgaTextRenderingContext :=
  if ctx.height ≤ row ∨ ctx.width ≤ col then ctx
  else ctx.store (ctx.width.toNat * row.toNat + col.toNat) 0

def vgasinkClearRow (row : BitVec 8) (ctx : VgaTextRenderingContext) : VgaTextRenderingContext :=
  if ctx.height ≤ row then ctx
  else (List.range ctx.width.toNat).foldl
    (fun ctx i => vgasinkClearCharAt row (BitVec.ofNat 8 i) ctx) ctx

def vgasinkClearScreen (ctx : VgaTextRenderingContext) : VgaTextRenderingContext :=
  (List.range (ctx.height.toNat * ctx.width.toNat)).foldl (fun ctx i => ctx.store i 0) ctx

/-- White on black. The ports and the cursor of the card are left out. -/
def vgasinkInit (ctx : VgaTextRenderingContext) : VgaTextRenderingContext :=
  vgasinkClearScreen { ctx with
    height := 25
    width := 80
    currentCol := 0
    currentRow := 0
    fg := 0xF
    bg := 0x0 }

/-- The loop that moves one row to the row above it. -/
def vgasinkMoveRow (ctx : VgaTextRenderingContext) (i : Nat) : VgaTextRenderingContext :=
  (List.range ctx.width.toNat).foldl (fun ctx k => ctx.store (ctx.width.toNat * (i - 1) + k)
    (ctx.bufVaddr.cells (ctx.width.toNat * i + k))) ctx

def vgasinkScroll : (lines : Nat) → VgaTextRenderingContext → VgaTextRenderingContext
  | 0, ctx => ctx
  | lines + 1, ctx =>
    let ctx := (List.range' 1 (ctx.height.toNat - 1)).foldl vgasinkMoveRow ctx
    vgasinkScroll lines (vgasinkClearRow (ctx.height - 1) ctx)

def vgasinkNewline (ctx : VgaTextRenderingContext) : VgaTextRenderingContext :=
  let ctx := { ctx with
    currentCol := 0
    currentRow := ctx.currentRow + 1 }
  if ctx.height ≤ ctx.currentRow then
    let ctx := vgasinkScroll 1 ctx
    { ctx with currentRow := ctx.currentRow - 1 }
  else ctx

/-- `c` is a signed character, which becomes an `int` before the colors are put to it. -/
def vgasinkCell (ctx : VgaTextRenderingContext) (c : Byte) : BitVec 16 :=
  c.signExtend 16 ||| ctx.fg.setWidth 16 <<< 8 ||| ctx.bg.setWidth 16 <<< 12

/-- This, like the other functions of the sink, returns 0 in every case. -/
def vgasinkPrintChar (c : Byte) (ctx : VgaTextRenderingContext) : VgaTextRenderingContext :=
  if ctx.width ≤ ctx.currentCol ∨ ctx.height ≤ ctx.currentRow then ctx
  else
    let ctx := ctx.store (ctx.width.toNat * ctx.currentRow.toNat + ctx.currentCol.toNat)
      (vgasinkCell ctx c)
    let ctx := { ctx with currentCol := ctx.currentCol + 1 }
    if ctx.width ≤ ctx.currentCol then vgasinkNewline ctx else ctx

/-- A call of the sink's operations. -/
inductive VgaCall
  | printChar (c : Byte)
  | newline
  deriving DecidableEq

def VgaCall.perform (ctx : VgaTextRenderingContext) : VgaCall → VgaTextRenderingContext
  | .printChar c => vgasinkPrintChar c ctx
  | .newline => vgasinkNewline ctx

/-- The sink after `vgasink_init` and these calls. -/
def vgasinkAfter (ctx : VgaTextRenderingContext) (calls : List VgaCall) : VgaTextRenderingContext :=
  calls.foldl VgaCall.perform (vgasinkInit ctx)

section Stores

variable {ctx : VgaTextRenderingContext}

/-- The stores of a part of the sink that does nothing else: what the cells hold then. All of them
    are to the 25 rows. -/
structure Redraws (ctx ctx' : VgaTextRenderingContext) (cells : Nat → BitVec 16) : Prop where
  same : ctx' = { ctx with bufVaddr := ctx'.bufVaddr }
  cells : ctx'.bufVaddr.cells = cells
  inside : ∀ i ∈ ctx'.bufVaddr.stored, i ∈ ctx.bufVaddr.stored ∨ i < 2000

theorem Redraws.refl (ctx : VgaTextRenderingContext) : Redraws ctx ctx ctx.bufVaddr.cells :=
  ⟨rfl, rfl, fun _ => .inl⟩

theorem Redraws.trans {ctx' ctx'' : VgaTextRenderingContext} {cells cells' : Nat → BitVec 16}
    (first : Redraws ctx ctx' cells) (second : Redraws ctx' ctx'' cells') :
    Redraws ctx ctx'' cells' := by
  refine ⟨?_, second.cells, ?_⟩
  · rw [second.same, first.same]
  · intro i member
    rcases second.inside i member with before | inside
    · exact first.inside i before
    · exact .inr inside

theorem Redraws.width {ctx' : VgaTextRenderingContext} {cells : Nat → BitVec 16}
    (drawn : Redraws ctx ctx' cells) : ctx'.width = ctx.width := by rw [drawn.same]

theorem Redraws.height {ctx' : VgaTextRenderingContext} {cells : Nat → BitVec 16}
    (drawn : Redraws ctx ctx' cells) : ctx'.height = ctx.height := by rw [drawn.same]

theorem store_redraws {i : Nat} (inside : i < 2000) (cell : BitVec 16) :
    Redraws ctx (ctx.store i cell) (Function.update ctx.bufVaddr.cells i cell) := by
  refine ⟨rfl, rfl, ?_⟩
  intro j member
  rcases List.mem_append.mp member with before | here
  · exact .inl before
  · rw [List.mem_singleton.mp here]
    exact .inr inside

theorem vgasinkClearScreen_redraws (width : ctx.width = 80) (height : ctx.height = 25) :
    Redraws ctx (vgasinkClearScreen ctx) fun m => if m < 2000 then 0 else ctx.bufVaddr.cells m := by
  have loop : ∀ n ≤ 2000, Redraws ctx
      ((List.range n).foldl (fun ctx i => ctx.store i 0) ctx)
      (fun m => if m < n then 0 else ctx.bufVaddr.cells m) := by
    intro n
    induction n with
    | zero =>
      intro _
      simpa using Redraws.refl ctx
    | succ n ih =>
      intro room
      rw [List.range_succ, List.foldl_append]
      have before := ih (Nat.le_of_succ_le room)
      have stored := before.trans (store_redraws (Nat.lt_of_succ_le room) 0)
      rw [before.cells] at stored
      have same : (fun m => if m < n + 1 then (0 : BitVec 16) else ctx.bufVaddr.cells m) =
          Function.update (fun m => if m < n then 0 else ctx.bufVaddr.cells m) n 0 := by
        funext m
        by_cases here : m = n
        · simp [here]
        · rw [Function.update_of_ne here]
          simp only [Nat.lt_succ_iff_lt_or_eq, here, or_false]
      rw [same]
      exact stored
  unfold vgasinkClearScreen
  rw [width, height]
  exact loop 2000 (Nat.le_refl _)

/-- One more store to a block of cells whose `n` first cells hold their values. -/
theorem update_block {old new : Nat → BitVec 16} {base n : Nat} :
    Function.update (fun m => if base ≤ m ∧ m < base + n then new m else old m) (base + n)
        (new (base + n)) =
      fun m => if base ≤ m ∧ m < base + (n + 1) then new m else old m := by
  funext m
  by_cases here : m = base + n
  · subst here
    simp
  · rw [Function.update_of_ne here]
    have same : (base ≤ m ∧ m < base + n) ↔ (base ≤ m ∧ m < base + (n + 1)) := by omega
    simp only [same]

theorem block_redraws {base : Nat} {step : VgaTextRenderingContext → Nat → VgaTextRenderingContext}
    (new : Nat → BitVec 16) (count : Nat) (inside : base + count ≤ 2000)
    (stores : ∀ k < count, ∀ ctx', Redraws ctx ctx'
        (fun m => if base ≤ m ∧ m < base + k then new m else ctx.bufVaddr.cells m) →
      step ctx' k = ctx'.store (base + k) (new (base + k))) :
    Redraws ctx ((List.range count).foldl step ctx)
      (fun m => if base ≤ m ∧ m < base + count then new m else ctx.bufVaddr.cells m) := by
  induction count with
  | zero =>
    have nothing : (fun m => if base ≤ m ∧ m < base + 0 then new m else ctx.bufVaddr.cells m) =
        ctx.bufVaddr.cells := by
      funext m
      rw [if_neg (by omega)]
    rw [nothing]
    exact Redraws.refl ctx
  | succ n ih =>
    have before := ih (by omega) fun k less => stores k (by omega)
    have stored := before.trans (store_redraws (show base + n < 2000 by omega) (new (base + n)))
    rw [before.cells, update_block] at stored
    rw [List.range_succ, List.foldl_append, List.foldl_cons, List.foldl_nil,
      stores n (by omega) _ before]
    exact stored

theorem vgasinkMoveRow_redraws (width : ctx.width = 80) {i : Nat} (above : 1 ≤ i) (row : i < 25) :
    Redraws ctx (vgasinkMoveRow ctx i) fun m =>
      if 80 * (i - 1) ≤ m ∧ m < 80 * (i - 1) + 80 then ctx.bufVaddr.cells (m + 80)
      else ctx.bufVaddr.cells m := by
  unfold vgasinkMoveRow
  rw [width]
  apply block_redraws (fun m => ctx.bufVaddr.cells (m + 80)) 80 (by omega)
  intro k less ctx' before
  have next : 80 * i + k = 80 * (i - 1) + k + 80 := by omega
  rw [before.width, width, before.cells]
  simp only [BitVec.reduceToNat, next]
  rw [if_neg (by omega)]

theorem vgasinkClearRow_redraws (width : ctx.width = 80) (height : ctx.height = 25) {row : BitVec 8}
    (inside : row.toNat < 25) : Redraws ctx (vgasinkClearRow row ctx) fun m =>
      if 80 * row.toNat ≤ m ∧ m < 80 * row.toNat + 80 then 0 else ctx.bufVaddr.cells m := by
  unfold vgasinkClearRow
  rw [height, width, if_neg (by simpa [BitVec.le_def] using inside)]
  apply block_redraws (fun _ => 0) 80 (by omega)
  intro k less ctx' before
  have col : (BitVec.ofNat 8 k).toNat = k := by
    rw [BitVec.toNat_ofNat]
    exact Nat.mod_eq_of_lt (by omega)
  unfold vgasinkClearCharAt
  rw [before.width, before.height, width, height, if_neg, col]
  · rfl
  · simp only [BitVec.le_def, col, BitVec.reduceToNat]
    omega

/-- Everything moves up by one row, and the last row becomes empty. -/
theorem vgasinkScroll_redraws (width : ctx.width = 80) (height : ctx.height = 25) :
    Redraws ctx (vgasinkScroll 1 ctx) fun m =>
      if m < 1920 then ctx.bufVaddr.cells (m + 80)
      else if m < 2000 then 0 else ctx.bufVaddr.cells m := by
  have loop : ∀ n ≤ 24, Redraws ctx ((List.range' 1 n).foldl vgasinkMoveRow ctx)
      (fun m => if m < 80 * n then ctx.bufVaddr.cells (m + 80) else ctx.bufVaddr.cells m) := by
    intro n
    induction n with
    | zero =>
      intro _
      simpa using Redraws.refl ctx
    | succ n ih =>
      intro room
      have before := ih (Nat.le_of_succ_le room)
      have moved := before.trans
        (vgasinkMoveRow_redraws (before.width.trans width) (show 1 ≤ 1 + n by omega) (by omega))
      have same : (fun m => if 80 * (1 + n - 1) ≤ m ∧ m < 80 * (1 + n - 1) + 80 then
          ((List.range' 1 n).foldl vgasinkMoveRow ctx).bufVaddr.cells (m + 80)
          else ((List.range' 1 n).foldl vgasinkMoveRow ctx).bufVaddr.cells m) =
          fun m => if m < 80 * (n + 1) then ctx.bufVaddr.cells (m + 80)
            else ctx.bufVaddr.cells m := by
        funext m
        rw [before.cells]
        dsimp only
        rcases Nat.lt_trichotomy m (80 * n) with less | here | more
        · rw [if_neg (by omega), if_pos less, if_pos (by omega)]
        · rw [if_pos (by omega), if_neg (by omega), if_pos (by omega)]
        · by_cases row : m < 80 * n + 80
          · rw [if_pos (by omega), if_neg (by omega), if_pos (by omega)]
          · rw [if_neg (by omega), if_neg (by omega), if_neg (by omega)]
      rw [same] at moved
      rw [List.range'_concat, List.foldl_append, Nat.one_mul]
      exact moved
  have copied := loop 24 (Nat.le_refl _)
  have cleared := copied.trans (vgasinkClearRow_redraws (copied.width.trans width)
    (copied.height.trans height) (show (24 : BitVec 8).toNat < 25 by decide))
  have same : (fun m => if 80 * (24 : BitVec 8).toNat ≤ m ∧ m < 80 * (24 : BitVec 8).toNat + 80
      then (0 : BitVec 16)
      else ((List.range' 1 24).foldl vgasinkMoveRow ctx).bufVaddr.cells m) =
      fun m => if m < 1920 then ctx.bufVaddr.cells (m + 80)
        else if m < 2000 then 0 else ctx.bufVaddr.cells m := by
    funext m
    simp only [copied.cells, BitVec.reduceToNat]
    by_cases moved : m < 1920
    · rw [if_neg (by omega), if_pos (by omega), if_pos moved]
    · by_cases last : m < 2000
      · have row : 80 * 24 ≤ m ∧ m < 80 * 24 + 80 := by omega
        rw [if_pos row, if_neg moved, if_pos last]
      · have outside : ¬(80 * 24 ≤ m ∧ m < 80 * 24 + 80) := by omega
        rw [if_neg outside, if_neg (by omega), if_neg moved, if_neg last]
  rw [same] at cleared
  have rows : ctx.height.toNat - 1 = 24 := by
    rw [height]
    rfl
  have last : ((List.range' 1 24).foldl vgasinkMoveRow ctx).height - 1 = 24 := by
    rw [copied.height, height]
    rfl
  rw [vgasinkScroll, vgasinkScroll, rows, last]
  exact cleared

end Stores

end Dxgmx
