import Dxgmx.Sinks.Vgasink

open Library

namespace Dxgmx

/-- What a call of the sink does to the text. -/
def VgaCall.write (text : ScrolledText Byte) : VgaCall → ScrolledText Byte
  | .printChar c => text.put 80 c
  | .newline => text.newline

def writtenText (calls : List VgaCall) : ScrolledText Byte := calls.foldl VgaCall.write .empty

/-- The character in the low byte, then the colors of the context. -/
def vgaCharacter (ctx : VgaTextRenderingContext) (c : Byte) : BitVec 16 :=
  ctx.bg.setWidth 4 ++ ctx.fg.setWidth 4 ++ c

/-- The buffer shows the last 25 rows of the text, and of the stores since `start` none was
    outside. -/
structure ShowsText (start ctx : VgaTextRenderingContext) (text : ScrolledText Byte) : Prop where
  cells : ∀ row < 25, ∀ col < 80, ctx.bufVaddr.cells (80 * row + col) =
    (text.shown 25 row col).elim 0 (vgaCharacter ctx)
  row : ctx.currentRow.toNat < 25
  col : ctx.currentCol.toNat < 80
  inside : ∀ i ∈ ctx.bufVaddr.stored, i ∈ start.bufVaddr.stored ∨ i < 2000

/-- The cell that white on black makes of a signed character. -/
def signedCell (c : Byte) : BitVec 16 := c.signExtend 16 ||| 0xF00

/-- The state of the sink for a text. Its last row may have become full. -/
structure SinkAt (start ctx : VgaTextRenderingContext) (text : ScrolledText Byte) : Prop where
  width : ctx.width = 80
  height : ctx.height = 25
  fg : ctx.fg = 0xF
  bg : ctx.bg = 0
  row : ctx.currentRow.toNat = text.cursorRow 25
  col : ctx.currentCol.toNat = text.current.length
  cells : ∀ row < 25, ∀ col < 80, ctx.bufVaddr.cells (80 * row + col) =
    (text.shown 25 row col).elim 0 signedCell
  inside : ∀ i ∈ ctx.bufVaddr.stored, i ∈ start.bufVaddr.stored ∨ i < 2000

section Simulation

variable {start ctx : VgaTextRenderingContext} {text : ScrolledText Byte}

theorem sinkAt_init (start : VgaTextRenderingContext) :
    SinkAt start (vgasinkInit start) .empty := by
  let fresh : VgaTextRenderingContext := { start with
    height := 25
    width := 80
    currentCol := 0
    currentRow := 0
    fg := 0xF
    bg := 0x0 }
  have cleared : Redraws fresh (vgasinkInit start) _ :=
    @vgasinkClearScreen_redraws fresh rfl rfl
  have same := cleared.same
  refine ⟨cleared.width, cleared.height, congrArg VgaTextRenderingContext.fg same,
    congrArg VgaTextRenderingContext.bg same,
    congrArg (fun ctx => ctx.currentRow.toNat) same,
    congrArg (fun ctx => ctx.currentCol.toNat) same, ?_, ?_⟩
  · intro row above col left
    have inside : 80 * row + col < 2000 := by omega
    rw [cleared.cells, ScrolledText.shown_empty]
    exact if_pos inside
  · exact cleared.inside

theorem SinkAt.newline (sink : SinkAt start ctx text) :
    SinkAt start (vgasinkNewline ctx) text.newline := by
  have below := text.cursorRow_lt (show 0 < 25 by decide)
  have next : (ctx.currentRow + 1).toNat = text.cursorRow 25 + 1 := by
    rw [BitVec.toNat_add, sink.row, show (1 : BitVec 8).toNat = 1 from rfl]
    exact Nat.mod_eq_of_lt (by omega)
  have moved := text.cursorRow_newline (show 0 < 25 by decide)
  unfold vgasinkNewline
  dsimp only
  by_cases room : text.ended.length + 1 < 25
  · have stays : ¬ctx.height ≤ ctx.currentRow + 1 := by
      rw [sink.height, BitVec.le_def, next]
      unfold ScrolledText.cursorRow
      simp only [BitVec.reduceToNat]
      omega
    rw [if_neg stays]
    refine ⟨sink.width, sink.height, sink.fg, sink.bg, ?_, rfl, ?_, sink.inside⟩
    · rw [moved, if_pos room]
      exact next
    · intro row above col left
      rw [ScrolledText.shown_newline, if_pos room]
      exact sink.cells row above col left
  · have last : text.cursorRow 25 = 24 := by
      unfold ScrolledText.cursorRow ScrolledText.hidden
      omega
    have scrolls : ctx.height ≤ ctx.currentRow + 1 := by
      rw [sink.height, BitVec.le_def, next, last]
      decide
    rw [if_pos scrolls]
    let lower : VgaTextRenderingContext := { ctx with
      currentCol := 0
      currentRow := ctx.currentRow + 1 }
    have scrolled : Redraws lower (vgasinkScroll 1 lower) _ :=
      @vgasinkScroll_redraws lower sink.width sink.height
    have same := scrolled.same
    refine ⟨scrolled.width.trans sink.width, scrolled.height.trans sink.height,
      (congrArg VgaTextRenderingContext.fg same).trans sink.fg,
      (congrArg VgaTextRenderingContext.bg same).trans sink.bg, ?_,
      congrArg (fun ctx => ctx.currentCol.toNat) same, ?_, ?_⟩
    · have row : (vgasinkScroll 1 lower).currentRow = ctx.currentRow + 1 :=
        congrArg VgaTextRenderingContext.currentRow same
      rw [moved, if_neg room, ← sink.row]
      show ((vgasinkScroll 1 lower).currentRow - 1).toNat = _
      rw [row, BitVec.add_sub_cancel]
    · intro row above col left
      rw [ScrolledText.shown_newline, if_neg room]
      refine (congrFun scrolled.cells _).trans ?_
      by_cases bottom : row = 24
      · rw [if_neg (by omega), if_pos (by omega), ScrolledText.shown_below (by omega)]
        rfl
      · rw [if_pos (by omega), show 80 * row + col + 80 = 80 * (row + 1) + col by omega]
        exact sink.cells (row + 1) (by omega) col left
    · intro i member
      rcases scrolled.inside i member with before | inside
      · exact sink.inside i before
      · exact .inr inside

theorem SinkAt.cell (sink : SinkAt start ctx text) (c : Byte) :
    vgasinkCell ctx c = signedCell c := by
  unfold vgasinkCell signedCell
  rw [sink.fg, sink.bg]
  simp

theorem SinkAt.printChar (sink : SinkAt start ctx text) (fits : text.current.length < 80)
    (c : Byte) : SinkAt start (vgasinkPrintChar c ctx) (text.put 80 c) := by
  have below := text.cursorRow_lt (show 0 < 25 by decide)
  have accepts : ¬(ctx.width ≤ ctx.currentCol ∨ ctx.height ≤ ctx.currentRow) := by
    simp only [sink.width, sink.height, BitVec.le_def, sink.row, sink.col, BitVec.reduceToNat]
    omega
  have next : (ctx.currentCol + 1).toNat = text.current.length + 1 := by
    rw [BitVec.toNat_add, sink.col, show (1 : BitVec 8).toNat = 1 from rfl]
    exact Nat.mod_eq_of_lt (by omega)
  have place : ctx.width.toNat * ctx.currentRow.toNat + ctx.currentCol.toNat =
      80 * text.cursorRow 25 + text.current.length := by
    rw [sink.width, sink.row, sink.col]
    rfl
  have stored := @store_redraws ctx _
    (show 80 * text.cursorRow 25 + text.current.length < 2000 by omega) (signedCell c)
  have appended : SinkAt start { ctx.store (80 * text.cursorRow 25 + text.current.length)
      (signedCell c) with currentCol := ctx.currentCol + 1 } (text.append c) := by
    refine ⟨sink.width, sink.height, sink.fg, sink.bg, sink.row, ?_, ?_, ?_⟩
    · rw [next]
      simp [ScrolledText.append]
    · intro row above col left
      rw [ScrolledText.shown_append (by decide)]
      refine (congrFun stored.cells _).trans ?_
      by_cases here : row = text.cursorRow 25 ∧ col = text.current.length
      · rw [if_pos here, here.1, here.2, Function.update_self]
        rfl
      · rw [if_neg here, Function.update_of_ne (by omega)]
        exact sink.cells row above col left
    · intro i member
      rcases stored.inside i member with before | inside
      · exact sink.inside i before
      · exact .inr inside
  unfold vgasinkPrintChar ScrolledText.put
  rw [if_neg accepts]
  dsimp only
  rw [place, sink.cell]
  by_cases room : text.current.length + 1 < 80
  · rw [if_pos room, if_neg]
    · exact appended
    · show ¬ctx.width ≤ ctx.currentCol + 1
      rw [sink.width, BitVec.le_def, next]
      exact Nat.not_le_of_lt room
  · rw [if_neg room, if_pos]
    · exact appended.newline
    · show ctx.width ≤ ctx.currentCol + 1
      rw [sink.width, BitVec.le_def, next]
      exact Nat.le_of_not_lt room

theorem sinkAt_after (start : VgaTextRenderingContext) (calls : List VgaCall) :
    SinkAt start (vgasinkAfter start calls) (writtenText calls) ∧
      (writtenText calls).current.length < 80 := by
  induction calls using List.reverseRecOn with
  | nil =>
    unfold vgasinkAfter writtenText
    rw [List.foldl_nil, List.foldl_nil]
    exact ⟨sinkAt_init start, by decide⟩
  | append_singleton calls call ih =>
    obtain ⟨sink, fits⟩ := ih
    unfold vgasinkAfter writtenText at *
    rw [List.foldl_append, List.foldl_append]
    cases call with
    | printChar c => exact ⟨sink.printChar fits c, ScrolledText.put_current (by decide) c⟩
    | newline => exact ⟨sink.newline, (by decide : 0 < 80)⟩

/-- The sign of a character is the uppermost bit of the background. -/
theorem signedCell_eq_iff {ctx : VgaTextRenderingContext} (fg : ctx.fg = 0xF) (bg : ctx.bg = 0)
    (c : Byte) : signedCell c = vgaCharacter ctx c ↔ c.toNat < 128 := by
  unfold signedCell vgaCharacter
  rw [fg, bg]
  revert c
  decide

theorem SinkAt.shows_iff (sink : SinkAt start ctx text) (fits : text.current.length < 80) :
    ShowsText start ctx text ↔ ∀ row < 25, ∀ col < 80, ∀ c, text.shown 25 row col = some c →
      c.toNat < 128 := by
  constructor
  · intro shows row above col left c here
    have cell := (sink.cells row above col left).symm.trans (shows.cells row above col left)
    rw [here] at cell
    exact (signedCell_eq_iff sink.fg sink.bg c).mp cell
  · intro plain
    refine ⟨?_, ?_, ?_, sink.inside⟩
    · intro row above col left
      rw [sink.cells row above col left]
      cases here : text.shown 25 row col with
      | none => rfl
      | some c =>
        exact (signedCell_eq_iff sink.fg sink.bg c).mpr (plain row above col left c here)
    · rw [sink.row]
      exact text.cursorRow_lt (by decide)
    · rw [sink.col]
      exact fits

theorem mem_writtenText {calls : List VgaCall} {c : Byte}
    (member : c ∈ (writtenText calls).rows.flatten) : VgaCall.printChar c ∈ calls := by
  induction calls using List.reverseRecOn with
  | nil => simp [writtenText, ScrolledText.rows, ScrolledText.empty] at member
  | append_singleton calls call ih =>
    unfold writtenText at member ih
    rw [List.foldl_append, List.foldl_cons, List.foldl_nil] at member
    apply List.mem_append.mpr
    cases call with
    | printChar d =>
      rw [VgaCall.write, ScrolledText.flatten_put, List.mem_append, List.mem_singleton] at member
      rcases member with before | rfl
      · exact .inl (ih before)
      · exact .inr (List.mem_singleton_self _)
    | newline =>
      rw [VgaCall.write, ScrolledText.flatten_newline] at member
      exact .inl (ih member)

/-- At every time the screen shows the end of the text, as long as no character has its uppermost bit
    set. -/
theorem vgasink_shows_text_iff (start : VgaTextRenderingContext) (calls : List VgaCall) :
    (∀ before, before <+: calls →
        ShowsText start (vgasinkAfter start before) (writtenText before)) ↔
      ∀ c, VgaCall.printChar c ∈ calls → c.toNat < 128 := by
  constructor
  · intro shows c member
    obtain ⟨before, later, rfl⟩ := List.append_of_mem member
    obtain ⟨sink, fits⟩ := sinkAt_after start (before ++ [.printChar c])
    have plain := (sink.shows_iff fits).mp
      (shows (before ++ [.printChar c]) ⟨later, by simp⟩)
    have step : writtenText (before ++ [.printChar c]) = (writtenText before).put 80 c := by
      simp [writtenText, VgaCall.write]
    obtain ⟨row, above, col, left, seen⟩ := ScrolledText.shown_put (show 1 < 25 by decide)
      (sinkAt_after start before).2 c
    rw [← step] at seen
    exact plain row above col left c seen
  · intro plain before earlier
    obtain ⟨sink, fits⟩ := sinkAt_after start before
    apply (sink.shows_iff fits).mpr
    intro row above col left c seen
    apply plain
    exact earlier.subset (mem_writtenText (ScrolledText.mem_of_shown seen))

/-- A character above 127 is shown on a white background. -/
theorem vgasink_shows_other_colors :
    ¬∀ (start : VgaTextRenderingContext) (calls : List VgaCall), ShowsText start
      (vgasinkAfter start calls) (writtenText calls) := by
  intro always
  let start : VgaTextRenderingContext := ⟨0, 0, 0, 0, 0, 0, ⟨fun _ => 0, []⟩⟩
  have shows := always start [.printChar 0x80]
  obtain ⟨sink, fits⟩ := sinkAt_after start [.printChar 0x80]
  have plain := (sink.shows_iff fits).mp shows 0 (by decide) 0 (by decide) 0x80 (by decide)
  exact absurd plain (by decide)

end Simulation

end Dxgmx
