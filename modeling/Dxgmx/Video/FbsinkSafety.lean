import Mathlib.Data.Set.Basic
import Dxgmx.Video.Fbsink

open Library

namespace Dxgmx

/-- The glyph of a character in the font. -/
def glyphRange (font : BuiltinFont) (c : Byte) : ByteRange :=
  ⟨font.hdr + font.header.headerSize + c.signExtend 32 * font.header.glyphSize,
    font.header.glyphSize.toNat⟩

def rowRange (header : Psf2Header) (glyphBuf : Ptr) (i : Nat) : ByteRange :=
  ⟨glyphBuf + BitVec.ofNat 32 i * (header.glyphWidth / 8), (header.glyphWidth / 8).toNat⟩

/-- The first rows of the copy of a glyph, as they are read. -/
def rowRanges (header : Psf2Header) (glyphBuf : Ptr) (count : Nat) : Set ByteRange :=
  {range | ∃ i < count, range = rowRange header glyphBuf i}

/-- From one world to the next: what is stored is inside, and this is what is read. -/
structure Renders (fontReads rowReads : Set ByteRange) (world world' : FbsinkWorld) : Prop where
  drawn : ∀ draw ∈ world'.drawn, draw ∈ world.drawn ∨ draw.2.Within draw.1.Holds
  fontReads : ∀ range, range ∈ world'.fontReads ↔ range ∈ world.fontReads ∨ range ∈ fontReads
  rowReads : ∀ range, range ∈ world'.rowReads ↔ range ∈ world.rowReads ∨ range ∈ rowReads

/-- The cells of the context are on its screen, and its cursor is in one. -/
structure OnScreen (font : Psf2Header) (ctx : FrameBufferRenderContext) : Prop where
  rows : ctx.glyphsPerCol.toNat * font.glyphHeight.toNat ≤ ctx.fb.height.toNat
  cols : ctx.glyphsPerRow.toNat * font.glyphWidth.toNat ≤ ctx.fb.width.toNat
  cx : ctx.cx.toNat < ctx.glyphsPerRow.toNat
  cy : ctx.cy.toNat < ctx.glyphsPerCol.toNat

section Bounds

variable {fb : FrameBuffer}

theorem toNat_mul_le (x y : BitVec 32) : (x * y).toNat ≤ x.toNat * y.toNat := by
  rw [BitVec.toNat_mul]
  exact Nat.mod_le _ _

theorem toNat_add_le (x y : BitVec 32) : (x + y).toNat ≤ x.toNat + y.toNat := by
  rw [BitVec.toNat_add]
  exact Nat.mod_le _ _

theorem pixel_inside {x y width height bytespp i : Nat} (col : x < width) (row : y < height)
    (byte : i < bytespp) : y * width * bytespp + x * bytespp + i < width * height * bytespp := by
  have cell : y * width + x < height * width :=
    calc y * width + x < (y + 1) * width := by rw [Nat.succ_mul]; omega
      _ ≤ height * width := Nat.mul_le_mul_right width row
  calc y * width * bytespp + x * bytespp + i
      < (y * width + x + 1) * bytespp := by rw [Nat.succ_mul, Nat.add_mul]; omega
    _ ≤ height * width * bytespp := Nat.mul_le_mul_right bytespp cell
    _ = width * height * bytespp := by rw [Nat.mul_comm height]

theorem fbWritePixel_within {x y : BitVec 32} (col : x.toNat < fb.width.toNat)
    (row : y.toNat < fb.height.toNat) :
    (⟨fb.baseVa + (y * fb.width * fb.bytespp + x * fb.bytespp), fb.bytespp.toNat⟩ :
      ByteRange).Within fb.Holds := by
  intro i inside
  dsimp only at inside
  apply fb.holds_at
  have first := toNat_mul_le (y * fb.width) fb.bytespp
  have line := Nat.mul_le_mul_right fb.bytespp.toNat (toNat_mul_le y fb.width)
  have second := toNat_mul_le x fb.bytespp
  have sum := toNat_add_le (y * fb.width * fb.bytespp) (x * fb.bytespp)
  have place := pixel_inside col row inside
  unfold FrameBuffer.bytes
  omega

/-- A whole row of glyphs. -/
theorem glyphRow_within {font : Psf2Header} {perCol row : BitVec 32}
    (rows : perCol.toNat * font.glyphHeight.toNat ≤ fb.height.toNat)
    (below : row.toNat < perCol.toNat) :
    (⟨fb.baseVa + row * (font.glyphHeight * fb.bytespp * fb.width),
      (fb.width * fb.bytespp * font.glyphHeight).toNat⟩ : ByteRange).Within fb.Holds := by
  intro i inside
  dsimp only at inside
  apply fb.holds_at
  have same : font.glyphHeight * fb.bytespp * fb.width = fb.width * fb.bytespp * font.glyphHeight := by
    rw [BitVec.mul_comm, BitVec.mul_comm font.glyphHeight, BitVec.mul_assoc]
  rw [same]
  have size : (fb.width * fb.bytespp * font.glyphHeight).toNat ≤
      fb.width.toNat * fb.bytespp.toNat * font.glyphHeight.toNat :=
    (toNat_mul_le _ _).trans (Nat.mul_le_mul_right _ (toNat_mul_le _ _))
  have offset := toNat_mul_le row (fb.width * fb.bytespp * font.glyphHeight)
  have bottom : (row.toNat + 1) * (fb.width * fb.bytespp * font.glyphHeight).toNat ≤ fb.bytes :=
    calc (row.toNat + 1) * (fb.width * fb.bytespp * font.glyphHeight).toNat
        ≤ perCol.toNat * (fb.width.toNat * fb.bytespp.toNat * font.glyphHeight.toNat) :=
          Nat.mul_le_mul below size
      _ = perCol.toNat * font.glyphHeight.toNat * (fb.width.toNat * fb.bytespp.toNat) := by ring
      _ ≤ fb.height.toNat * (fb.width.toNat * fb.bytespp.toNat) := Nat.mul_le_mul_right _ rows
      _ = fb.bytes := by
          unfold FrameBuffer.bytes
          ring
  rw [Nat.succ_mul] at bottom
  omega

end Bounds

section Renders

variable {world world' world'' : FbsinkWorld} {fontReads rowReads : Set ByteRange}

theorem Renders.refl (world : FbsinkWorld) : Renders ∅ ∅ world world where
  drawn _ := .inl
  fontReads _ := by simp
  rowReads _ := by simp

theorem Renders.trans {fontReads' rowReads' : Set ByteRange}
    (first : Renders fontReads rowReads world world')
    (second : Renders fontReads' rowReads' world' world'') :
    Renders (fontReads ∪ fontReads') (rowReads ∪ rowReads') world world'' where
  drawn draw member := by
    rcases second.drawn draw member with before | inside
    · exact first.drawn draw before
    · exact .inr inside
  fontReads range := by rw [second.fontReads, first.fontReads, Set.mem_union, or_assoc]
  rowReads range := by rw [second.rowReads, first.rowReads, Set.mem_union, or_assoc]

theorem Renders.then_draw (first : Renders fontReads rowReads world world')
    (second : Renders ∅ ∅ world' world'') : Renders fontReads rowReads world world'' := by
  simpa using first.trans second

theorem Renders.foldl {f : FbsinkWorld → Nat → FbsinkWorld} {indices : List Nat}
    (each : ∀ i ∈ indices, ∀ world, Renders ∅ ∅ world (f world i)) (world : FbsinkWorld) :
    Renders ∅ ∅ world (indices.foldl f world) := by
  induction indices generalizing world with
  | nil => exact .refl world
  | cons i indices ih =>
    have first := each i List.mem_cons_self world
    exact first.then_draw (ih (fun j member => each j (List.mem_cons_of_mem i member)) _)

theorem renders_draw {fb : FrameBuffer} {dest : Ptr} {count : Nat} (mem : Ptr → Byte)
    (world : FbsinkWorld) (within : (⟨dest, count⟩ : ByteRange).Within fb.Holds) :
    Renders ∅ ∅ world (world.draw fb dest count mem) where
  drawn draw member := by
    rcases List.mem_append.mp member with before | here
    · exact .inl before
    · rw [List.mem_singleton.mp here]
      exact .inr within
  fontReads _ := by simp [FbsinkWorld.draw]
  rowReads _ := by simp [FbsinkWorld.draw]

end Renders

section Contexts

variable {font : Psf2Header} {ctx : FrameBufferRenderContext}

theorem fbsinkScroll_renders (on : OnScreen font ctx) (world : FbsinkWorld) :
    Renders ∅ ∅ world (fbsinkScroll font ctx world) := by
  unfold fbsinkScroll
  dsimp only
  have small := ctx.glyphsPerCol.isLt
  have some := on.cy
  refine (Renders.foldl (fun i member world => ?_) world).then_draw
    (renders_draw _ _ (glyphRow_within on.rows ?_))
  · obtain ⟨low, high⟩ := List.mem_range'_1.mp member
    refine renders_draw _ _ (glyphRow_within on.rows ?_)
    bv_omega
  · bv_omega

/-- A new line keeps the cursor on the screen and draws inside of it. -/
theorem fbsinkNewlineToCtx_onScreen (on : OnScreen font ctx) (world : FbsinkWorld) :
    OnScreen font (fbsinkNewlineToCtx font ctx world).1 ∧
      Renders ∅ ∅ world (fbsinkNewlineToCtx font ctx world).2 := by
  have some : (0 : BitVec 32).toNat < ctx.glyphsPerRow.toNat := Nat.lt_of_le_of_lt (Nat.zero_le _) on.cx
  have start : OnScreen font { ctx with cx := 0 } := ⟨on.rows, on.cols, some, on.cy⟩
  unfold fbsinkNewlineToCtx
  dsimp only
  split
  · exact ⟨start, fbsinkScroll_renders start world⟩
  · rename_i above
    refine ⟨⟨on.rows, on.cols, some, ?_⟩, .refl world⟩
    exact BitVec.not_le.mp above

theorem fbsinkDrawRow_renders {junk : StackJunk} {x y pixel glyphrow : BitVec 32}
    (cols : x.toNat + font.glyphWidth.toNat ≤ ctx.fb.width.toNat)
    (row : y.toNat < ctx.fb.height.toNat) (world : FbsinkWorld) :
    Renders ∅ ∅ world (fbsinkDrawRow junk font ctx.fb x y pixel glyphrow world) := by
  unfold fbsinkDrawRow
  refine Renders.foldl (fun k member world => ?_) world
  have inside := List.mem_range.mp member
  split
  · refine renders_draw _ _ (fbWritePixel_within ?_ row)
    have column := toNat_add_le x (font.glyphWidth - 1 - BitVec.ofNat 32 k)
    have mirrored : (font.glyphWidth - 1 - BitVec.ofNat 32 k).toNat < font.glyphWidth.toNat := by
      bv_omega
    omega
  · exact .refl world

theorem fbsinkGlyphRow_renders {junk : StackJunk} {x y pixel : BitVec 32} {i : Nat}
    (glyphBuf : Ptr) (cols : x.toNat + font.glyphWidth.toNat ≤ ctx.fb.width.toNat)
    (row : (y + BitVec.ofNat 32 i).toNat < ctx.fb.height.toNat) (state : BitVec 32 × FbsinkWorld) :
    Renders ∅ {rowRange font glyphBuf i} state.2
      (fbsinkGlyphRow junk font ctx.fb glyphBuf x y pixel state i).2 := by
  have read : Renders ∅ {rowRange font glyphBuf i} state.2
      { state.2 with rowReads := state.2.rowReads ++ [rowRange font glyphBuf i] } :=
    ⟨fun _ => .inl, fun _ => by simp, fun _ => by simp⟩
  exact read.then_draw (fbsinkDrawRow_renders cols row _)

theorem rowRanges_succ (header : Psf2Header) (glyphBuf : Ptr) (count : Nat) :
    rowRanges header glyphBuf (count + 1) =
      rowRanges header glyphBuf count ∪ {rowRange header glyphBuf count} := by
  ext range
  simp only [rowRanges, Set.mem_ofPred_eq, Set.mem_union, Set.mem_singleton_iff]
  constructor
  · rintro ⟨i, below, rfl⟩
    rcases Nat.lt_succ_iff_lt_or_eq.mp below with inside | rfl
    · exact .inl ⟨i, inside, rfl⟩
    · exact .inr rfl
  · rintro (⟨i, inside, rfl⟩ | rfl)
    · exact ⟨i, by omega, rfl⟩
    · exact ⟨count, by omega, rfl⟩

theorem fbsinkGlyphRows_renders {junk : StackJunk} {x y pixel : BitVec 32} {count : Nat}
    (glyphBuf : Ptr) (cols : x.toNat + font.glyphWidth.toNat ≤ ctx.fb.width.toNat)
    (rows : y.toNat + count ≤ ctx.fb.height.toNat) (state : BitVec 32 × FbsinkWorld) :
    Renders ∅ (rowRanges font glyphBuf count) state.2
      ((List.range count).foldl (fbsinkGlyphRow junk font ctx.fb glyphBuf x y pixel) state).2 := by
  induction count with
  | zero =>
    have none : rowRanges font glyphBuf 0 = ∅ := by simp [rowRanges]
    rw [none]
    exact .refl state.2
  | succ count ih =>
    rw [List.range_succ, List.foldl_append, List.foldl_cons, List.foldl_nil, rowRanges_succ]
    have height := ctx.fb.height.isLt
    have line : (y + BitVec.ofNat 32 count).toNat < ctx.fb.height.toNat := by bv_omega
    simpa using (ih (by omega)).trans (fbsinkGlyphRow_renders glyphBuf cols line _)

/-- A glyph keeps the cursor on the screen, and this is what is read for it. -/
theorem fbsinkPrintCharToCtx_onScreen {junk : StackJunk} {c : Byte} {s : FbsinkState}
    (on : OnScreen s.font.header ctx) (world : FbsinkWorld) :
    OnScreen s.font.header (fbsinkPrintCharToCtx junk c s ctx world).1 ∧
      Renders {glyphRange s.font c}
        (rowRanges s.font.header s.glyphBuf s.font.header.glyphHeight.toNat) world
        (fbsinkPrintCharToCtx junk c s ctx world).2 := by
  have cols : (ctx.cx * s.font.header.glyphWidth).toNat + s.font.header.glyphWidth.toNat ≤
      ctx.fb.width.toNat :=
    calc (ctx.cx * s.font.header.glyphWidth).toNat + s.font.header.glyphWidth.toNat
        ≤ (ctx.cx.toNat + 1) * s.font.header.glyphWidth.toNat := by
          rw [Nat.succ_mul]
          exact Nat.add_le_add_right (toNat_mul_le _ _) _
      _ ≤ ctx.glyphsPerRow.toNat * s.font.header.glyphWidth.toNat := Nat.mul_le_mul_right _ on.cx
      _ ≤ ctx.fb.width.toNat := on.cols
  have rows : (ctx.cy * s.font.header.glyphHeight).toNat + s.font.header.glyphHeight.toNat ≤
      ctx.fb.height.toNat :=
    calc (ctx.cy * s.font.header.glyphHeight).toNat + s.font.header.glyphHeight.toNat
        ≤ (ctx.cy.toNat + 1) * s.font.header.glyphHeight.toNat := by
          rw [Nat.succ_mul]
          exact Nat.add_le_add_right (toNat_mul_le _ _) _
      _ ≤ ctx.glyphsPerCol.toNat * s.font.header.glyphHeight.toNat := Nat.mul_le_mul_right _ on.cy
      _ ≤ ctx.fb.height.toNat := on.rows
  have glyph : Renders {glyphRange s.font c} ∅ world (psfGetGlyphData c s.glyphBuf s.font world) :=
    ⟨fun _ => .inl, fun _ => by simp [psfGetGlyphData, glyphRange],
      fun _ => by simp [psfGetGlyphData]⟩
  have drawn := fun pixel => glyph.trans (@fbsinkGlyphRows_renders _ _ junk _ _ pixel _ s.glyphBuf
    cols rows (junk.glyphrow, psfGetGlyphData c s.glyphBuf s.font world))
  simp only [Set.union_empty, Set.empty_union] at drawn
  unfold fbsinkPrintCharToCtx
  dsimp only
  split
  · have line := fbsinkNewlineToCtx_onScreen on
    exact ⟨(line _).1, (drawn _).then_draw (line _).2⟩
  · rename_i before
    refine ⟨⟨on.rows, on.cols, ?_, on.cy⟩, drawn _⟩
    exact BitVec.not_le.mp before

end Contexts

section Calls

variable {font : Psf2Header} {contexts : List FrameBufferRenderContext}

/-- Some context shows what is printed. -/
def Shown (contexts : List FrameBufferRenderContext) : Prop :=
  ∃ ctx ∈ contexts, ctx.fb.takeover = false

theorem shown_cons (ctx : FrameBufferRenderContext) (contexts : List FrameBufferRenderContext) :
    Shown (ctx :: contexts) ↔ ctx.fb.takeover = false ∨ Shown contexts := by
  simp [Shown]

/-- What the loop over the contexts does where each turn keeps the cursor on the screen. It reads
    something if a turn is made. -/
theorem fbsinkEachContext_onScreen
    {f : FrameBufferRenderContext → FbsinkWorld → FrameBufferRenderContext × FbsinkWorld}
    {fontReads rowReads : Set ByteRange}
    (turn : ∀ ctx, OnScreen font ctx → ∀ world, OnScreen font (f ctx world).1 ∧
      Renders fontReads rowReads world (f ctx world).2)
    (on : ∀ ctx ∈ contexts, OnScreen font ctx) (world : FbsinkWorld) :
    (∀ ctx ∈ (fbsinkEachContext f contexts world).1, OnScreen font ctx) ∧
      Renders {range | Shown contexts ∧ range ∈ fontReads}
        {range | Shown contexts ∧ range ∈ rowReads} world
        (fbsinkEachContext f contexts world).2 := by
  induction contexts generalizing world with
  | nil =>
    have none : ¬ Shown [] := fun shown => by simp [Shown] at shown
    simp only [none, false_and]
    exact ⟨nofun, .refl world⟩
  | cons ctx contexts ih =>
    obtain ⟨first, others⟩ := List.forall_mem_cons.mp on
    rw [fbsinkEachContext]
    by_cases taken : ctx.fb.takeover = true
    · rw [if_pos taken]
      dsimp only
      have rest := ih others world
      have shown : Shown (ctx :: contexts) ↔ Shown contexts := by simp [shown_cons, taken]
      simp only [shown]
      exact ⟨List.forall_mem_cons.mpr ⟨first, rest.1⟩, rest.2⟩
    · rw [if_neg taken]
      dsimp only
      have here := turn ctx first world
      have rest := ih others (f ctx world).2
      have shown : Shown (ctx :: contexts) := (shown_cons _ _).mpr (.inl (by simpa using taken))
      simp only [shown, true_and]
      refine ⟨List.forall_mem_cons.mpr ⟨here.1, rest.1⟩, ?_⟩
      have both := here.2.trans rest.2
      have absorbs : ∀ reads : Set ByteRange,
          reads ∪ {range | Shown contexts ∧ range ∈ reads} = {range | range ∈ reads} := by
        intro reads
        ext range
        simp only [Set.mem_union, Set.mem_ofPred_eq]
        exact ⟨fun either => either.elim id And.right, .inl⟩
      rw [absorbs, absorbs] at both
      exact both

/-- What holds of the sink in every state. -/
structure FbsinkSized (s : FbsinkState) : Prop where
  glyphs : s.font.header.glyphCount = 256
  some : 0 < s.font.header.glyphSize.toNat
  drawn : ∀ draw ∈ s.world.drawn, draw.2.Within draw.1.Holds
  contexts : ∀ ctx ∈ s.contexts, OnScreen s.font.header ctx

theorem fbsinkPrintChar_renders {s : FbsinkState} (sized : FbsinkSized s) (junk : StackJunk)
    (c : Byte) :
    (∀ ctx ∈ (fbsinkPrintChar junk c s).contexts, OnScreen s.font.header ctx) ∧
      Renders {range | Shown s.contexts ∧ range = glyphRange s.font c}
        {range | Shown s.contexts ∧
          range ∈ rowRanges s.font.header s.glyphBuf s.font.header.glyphHeight.toNat} s.world
        (fbsinkPrintChar junk c s).world :=
  fbsinkEachContext_onScreen (fun _ on => fbsinkPrintCharToCtx_onScreen on) sized.contexts s.world

theorem fbsinkNewline_renders {s : FbsinkState} (sized : FbsinkSized s) :
    (∀ ctx ∈ (fbsinkNewline s).contexts, OnScreen s.font.header ctx) ∧
      Renders ∅ ∅ s.world (fbsinkNewline s).world := by
  have all := fbsinkEachContext_onScreen (fun _ on => fbsinkNewlineToCtx_onScreen on)
    sized.contexts s.world
  simp only [Set.mem_empty_iff_false, and_false] at all
  exact all

theorem forall_mem_modify {α : Type} {good : α → Prop} {f : α → α} (keeps : ∀ a, good a → good (f a))
    {l : List α} (all : ∀ a ∈ l, good a) (i : Nat) : ∀ a ∈ l.modify i f, good a := by
  intro a member
  obtain ⟨j, at_⟩ := List.mem_iff_getElem?.mp member
  rw [List.getElem?_modify] at at_
  obtain ⟨b, there, rfl⟩ := Option.map_eq_some_iff.mp at_
  have before := all b (List.mem_of_getElem? there)
  split
  · exact keeps b before
  · exact before

theorem FbsinkSized.step {s s' : FbsinkState} {call : FbsinkCall} (sized : FbsinkSized s)
    (step : FbsinkStep s call s') : FbsinkSized s' := by
  cases step
  cases call with
  | printChar junk c =>
    have printed := fbsinkPrintChar_renders sized junk c
    refine ⟨sized.glyphs, sized.some, fun draw member => ?_, printed.1⟩
    exact (printed.2.drawn draw member).elim (sized.drawn draw) id
  | newline =>
    have ended := fbsinkNewline_renders sized
    refine ⟨sized.glyphs, sized.some, fun draw member => ?_, ended.1⟩
    exact (ended.2.drawn draw member).elim (sized.drawn draw) id
  | takeover i =>
    refine ⟨sized.glyphs, sized.some, sized.drawn, ?_⟩
    exact forall_mem_modify (fun ctx on => ⟨on.rows, on.cols, on.cx, on.cy⟩) sized.contexts i
  | others mem fgcolor => exact ⟨sized.glyphs, sized.some, sized.drawn, sized.contexts⟩

end Calls

section Reads

variable {font : BuiltinFont} {c : Byte}

theorem signExtend_low (ascii : c.toNat < 128) : c.signExtend 32 = BitVec.ofNat 32 c.toNat := by
  have positive : c.msb = false := by
    rw [BitVec.msb_eq_false_iff_two_mul_lt]
    omega
  rw [BitVec.signExtend_eq_setWidth_of_msb_false positive]
  bv_omega

/-- A character that is not ASCII is a negative one. -/
theorem signExtend_high (high : 128 ≤ c.toNat) :
    c.signExtend 32 = -BitVec.ofNat 32 (256 - c.toNat) := by
  have bounded := c.isLt
  apply BitVec.eq_of_toInt_eq
  rw [BitVec.toInt_signExtend_of_le (by decide), BitVec.toInt_eq_toNat_cond c, if_neg (by omega),
    BitVec.toInt_eq_toNat_cond, BitVec.toNat_neg, BitVec.toNat_ofNat]
  split <;> omega

theorem glyph_offset {index : Nat} {size : BitVec 32} (fits : index * size.toNat < 2 ^ 32)
    (small : index < 2 ^ 32) : (BitVec.ofNat 32 index * size).toNat = index * size.toNat := by
  rw [BitVec.toNat_mul, BitVec.toNat_ofNat, Nat.mod_eq_of_lt small, Nat.mod_eq_of_lt fits]

/-- The glyph of a character is in the table exactly if the character is ASCII. -/
theorem glyphRange_within (glyphs : font.header.glyphCount = 256)
    (some : 0 < font.header.glyphSize.toNat) :
    (glyphRange font c).Within font.InTable ↔ c.toNat < 128 := by
  have whole := font.whole
  have linked := font.linked
  unfold InKernel procHighAddress at linked
  have count : (256 : BitVec 32).toNat = 256 := rfl
  rw [glyphs, count] at whole
  have bounded := c.isLt
  constructor
  · intro within
    by_contra high
    have steps : (256 - c.toNat) * font.header.glyphSize.toNat ≤ 128 * font.header.glyphSize.toNat :=
      Nat.mul_le_mul_right _ (by omega)
    have back := @glyph_offset (256 - c.toNat) font.header.glyphSize (by omega) (by omega)
    have first := (within 0 some).1
    have positive : 0 < (256 - c.toNat) * font.header.glyphSize.toNat :=
      Nat.mul_pos (by omega) some
    simp only [glyphRange] at first
    rw [signExtend_high (by omega), BitVec.neg_mul] at first
    bv_omega
  · intro ascii i inside
    simp only [glyphRange] at inside
    have steps : (c.toNat + 1) * font.header.glyphSize.toNat ≤ 128 * font.header.glyphSize.toNat :=
      Nat.mul_le_mul_right _ ascii
    rw [Nat.succ_mul] at steps
    have forward := @glyph_offset c.toNat font.header.glyphSize (by omega) (by omega)
    unfold BuiltinFont.InTable glyphRange
    dsimp only
    rw [signExtend_low ascii, glyphs, count]
    constructor
    · bv_omega
    · bv_omega

/-- The rows of a glyph are read from its copy exactly if they are no more than the glyph. -/
theorem rowRanges_within (header : Psf2Header) (glyphBuf : Ptr) (count : Nat) :
    (∀ range ∈ rowRanges header glyphBuf count,
        range.Within fun addr => (addr - glyphBuf).toNat < header.glyphSize.toNat) ↔
      count * (header.glyphWidth / 8).toNat ≤ header.glyphSize.toNat := by
  have bounded := header.glyphSize.isLt
  have place : ∀ i j, i * (header.glyphWidth / 8).toNat + j < 2 ^ 32 → i < 2 ^ 32 →
      (glyphBuf + BitVec.ofNat 32 i * (header.glyphWidth / 8) + BitVec.ofNat 32 j - glyphBuf).toNat =
        i * (header.glyphWidth / 8).toNat + j := by
    intro i j fits small
    have row := @glyph_offset i (header.glyphWidth / 8) (by omega) small
    bv_omega
  constructor
  · intro within
    by_contra more
    have wide : 0 < (header.glyphWidth / 8).toNat := by
      by_contra none
      rw [Nat.eq_zero_of_not_pos none, Nat.mul_zero] at more
      exact more (Nat.zero_le _)
    -- the byte behind the copy is one of some row
    have row : header.glyphSize.toNat / (header.glyphWidth / 8).toNat < count := by
      rw [Nat.div_lt_iff_lt_mul wide]
      omega
    have split := Nat.div_add_mod' header.glyphSize.toNat (header.glyphWidth / 8).toNat
    have small := Nat.div_le_self header.glyphSize.toNat (header.glyphWidth / 8).toNat
    have outside := within _ ⟨_, row, rfl⟩ _ (Nat.mod_lt header.glyphSize.toNat wide)
    simp only [rowRange] at outside
    rw [place _ _ (by omega) (by omega), split] at outside
    exact lt_irrefl _ outside
  · rintro fits _ ⟨i, row, rfl⟩ j inside
    simp only [rowRange] at inside ⊢
    have next : (i + 1) * (header.glyphWidth / 8).toNat ≤ count * (header.glyphWidth / 8).toNat :=
      Nat.mul_le_mul_right _ row
    have wide : i * 1 ≤ i * (header.glyphWidth / 8).toNat := Nat.mul_le_mul_left i (by omega)
    rw [Nat.succ_mul] at next
    rw [place i j (by omega) (by omega)]
    omega

end Reads

section Decided

variable {s s' : FbsinkState}

theorem FbsinkSized.safe_iff (sized : FbsinkSized s) :
    FbsinkSafe s ↔ (∀ range ∈ s.world.fontReads, range.Within s.font.InTable) ∧
      ∀ range ∈ s.world.rowReads,
        range.Within fun addr => (addr - s.glyphBuf).toNat < s.font.header.glyphSize.toNat := by
  constructor
  · intro safe
    exact ⟨safe.fontReads, safe.rowReads⟩
  · rintro ⟨fontReads, rowReads⟩
    exact ⟨sized.drawn, fontReads, rowReads,
      fun ctx member => ⟨(sized.contexts ctx member).cx, (sized.contexts ctx member).cy⟩⟩

theorem fbsinkPrintChar_safe (sized : FbsinkSized s) (safe : FbsinkSafe s) (junk : StackJunk)
    (c : Byte) : FbsinkSafe (fbsinkPrintChar junk c s) ↔ FbsinkMeets s (.printChar junk c) := by
  have printed := (fbsinkPrintChar_renders sized junk c).2
  have step : FbsinkStep s (.printChar junk c) (fbsinkPrintChar junk c s) := rfl
  have after := sized.step step
  rw [after.safe_iff]
  simp only [printed.fontReads, printed.rowReads, or_imp, forall_and, Set.mem_ofPred_eq, and_imp]
  change ((∀ range ∈ s.world.fontReads, range.Within s.font.InTable) ∧
      ∀ range, Shown s.contexts → range = glyphRange s.font c → range.Within s.font.InTable) ∧
    ((∀ range ∈ s.world.rowReads, range.Within _) ∧ ∀ range, Shown s.contexts →
      range ∈ rowRanges s.font.header s.glyphBuf s.font.header.glyphHeight.toNat →
        range.Within fun addr => (addr - s.glyphBuf).toNat < s.font.header.glyphSize.toNat) ↔
      (Shown s.contexts → c.toNat < 128 ∧ s.font.header.glyphHeight.toNat *
        (s.font.header.glyphWidth / 8).toNat ≤ s.font.header.glyphSize.toNat)
  rw [← glyphRange_within sized.glyphs sized.some, ← rowRanges_within _ s.glyphBuf]
  constructor
  · rintro ⟨⟨-, fontReads⟩, -, rowReads⟩ shown
    exact ⟨fontReads _ shown rfl, fun range member => rowReads range shown member⟩
  · intro within
    refine ⟨⟨safe.fontReads, ?_⟩, safe.rowReads, fun range shown member =>
      (within shown).2 range member⟩
    rintro range shown rfl
    exact (within shown).1

theorem fbsinkStep_safe {call : FbsinkCall} (sized : FbsinkSized s) (safe : FbsinkSafe s)
    (step : FbsinkStep s call s') : FbsinkSafe s' ↔ FbsinkMeets s call := by
  have after := sized.step step
  cases step
  cases call with
  | printChar junk c => exact fbsinkPrintChar_safe sized safe junk c
  | newline =>
    have ended := (fbsinkNewline_renders sized).2
    refine iff_of_true (after.safe_iff.mpr ⟨?_, ?_⟩) trivial
    · intro range member
      exact safe.fontReads range (((ended.fontReads range).mp member).resolve_right id)
    · intro range member
      exact safe.rowReads range (((ended.rowReads range).mp member).resolve_right id)
  | takeover i =>
    exact iff_of_true (after.safe_iff.mpr ⟨safe.fontReads, safe.rowReads⟩) trivial
  | others mem fgcolor =>
    exact iff_of_true (after.safe_iff.mpr ⟨safe.fontReads, safe.rowReads⟩) trivial

theorem fbsinkInit_ok {fbs : List FrameBuffer} {font : BuiltinFont} {alloc : FbsinkMem}
    {mem : Ptr → Byte} (init : fbsinkInit fbs font alloc mem = .ok (.ok s)) :
    0 < font.header.glyphSize.toNat ∧ ∃ glyphBuf, s =
      ⟨7, font, glyphBuf, fbs.map (fbsinkContext font.header), ⟨mem, [], [], []⟩⟩ := by
  unfold fbsinkInit at init
  dsimp only at init
  by_cases empty : font.header.glyphSize = 0
  · rw [if_pos empty] at init
    split_ifs at init <;> cases init
  · rw [if_neg empty] at init
    have some_ : 0 < font.header.glyphSize.toNat := by bv_omega
    cases buf : alloc.glyphBuf with
    | none =>
      rw [buf] at init
      split_ifs at init <;> cases init
    | some glyphBuf =>
      rw [buf] at init
      split_ifs at init <;> cases init
      exact ⟨some_, glyphBuf, rfl⟩

/-- The contexts that `fbsink_init` makes start at the top left of their screens. -/
theorem fbsinkInit_sized {fbs : List FrameBuffer} {font : BuiltinFont} {alloc : FbsinkMem}
    {mem : Ptr → Byte} (glyphs : font.header.glyphCount = 256)
    (cells : ∀ fb ∈ fbs, 0 < (fb.width / font.header.glyphWidth).toNat ∧
      0 < (fb.height / font.header.glyphHeight).toNat)
    (init : fbsinkInit fbs font alloc mem = .ok (.ok s)) : FbsinkSized s ∧ FbsinkSafe s := by
  obtain ⟨some_, glyphBuf, rfl⟩ := fbsinkInit_ok init
  have sized : FbsinkSized
      ⟨7, font, glyphBuf, fbs.map (fbsinkContext font.header), ⟨mem, [], [], []⟩⟩ := by
    refine ⟨glyphs, some_, nofun, fun ctx member => ?_⟩
    obtain ⟨fb, registered, rfl⟩ := List.mem_map.mp member
    have cell := cells fb registered
    exact ⟨Nat.div_mul_le_self _ _, Nat.div_mul_le_self _ _, cell.1, cell.2⟩
  exact ⟨sized, sized.safe_iff.mpr ⟨nofun, nofun⟩⟩

end Decided

/-- After `fbsink_init` nothing outside of a framebuffer is ever stored to and the cursors stay on
    their screens. The runs that print what the condition allows are those of which all of it is
    true, the reads of the font included. -/
theorem fbsink_safe_iff (fbs : List FrameBuffer) (font : BuiltinFont) (alloc : FbsinkMem)
    (mem : Ptr → Byte) (calls : List FbsinkCall) (s s' : FbsinkState)
    (glyphs : font.header.glyphCount = 256)
    (cells : ∀ fb ∈ fbs, 0 < (fb.width / font.header.glyphWidth).toNat ∧
      0 < (fb.height / font.header.glyphHeight).toNat)
    (init : fbsinkInit fbs font alloc mem = .ok (.ok s)) :
    (Run FbsinkStep s calls s' → (∀ draw ∈ s'.world.drawn, draw.2.Within draw.1.Holds) ∧
        ∀ ctx ∈ s'.contexts, ctx.cx < ctx.glyphsPerRow ∧ ctx.cy < ctx.glyphsPerCol) ∧
      (Run (fun s call s' => FbsinkStep s call s' ∧ FbsinkMeets s call) s calls s' →
        FbsinkSafe s') ∧
      (Run (fun s call s' => FbsinkStep s call s' ∧ FbsinkMeets s call) s calls s' ↔
        Run (fun s call s' => FbsinkStep s call s' ∧ FbsinkSafe s') s calls s') := by
  obtain ⟨sized, safe⟩ := fbsinkInit_sized glyphs cells init
  refine ⟨fun run => ?_, Run.good_iff FbsinkSized FbsinkSafe FbsinkMeets
    (fun _ _ _ step before => before.step step)
    (fun _ _ _ step before good => fbsinkStep_safe before good step) sized safe⟩
  have after := run.invariant FbsinkSized (fun _ _ _ step before => before.step step) sized
  exact ⟨after.drawn, fun ctx member => ⟨(after.contexts ctx member).cx,
    (after.contexts ctx member).cy⟩⟩

section Examples

/-- 256 glyphs of 8 by 16. -/
def ruscii : BuiltinFont where
  hdr := 0xc0200000
  header := ⟨0x864ab572, 32, 256, 16, 16, 8⟩
  linked := by
    unfold InKernel
    decide
  whole := by decide

def vgaFb : FrameBuffer := ⟨0xd0000000, 640, 480, 4, false⟩

def zeroJunk : StackJunk := ⟨0, fun _ => 0⟩

/-- The sink with one framebuffer, just initialized. -/
def rusciiSink : FbsinkState :=
  ⟨7, ruscii, 0xc0300000, [fbsinkContext ruscii.header vgaFb], ⟨fun _ => 0, [], [], []⟩⟩

theorem rusciiSink_init :
    fbsinkInit [vgaFb] ruscii ⟨true, some 0xc0300000, true⟩ (fun _ => 0) =
      .ok (.ok rusciiSink) := rfl

theorem rusciiSink_cells : ∀ fb ∈ [vgaFb], 0 < (fb.width / ruscii.header.glyphWidth).toNat ∧
    0 < (fb.height / ruscii.header.glyphHeight).toNat := by
  intro fb member
  rw [List.mem_singleton.mp member]
  decide

/-- An `A` and a new line. -/
theorem fbsink_safe_letter :
    FbsinkSafe (fbsinkNewline (fbsinkPrintChar zeroJunk 65 rusciiSink)) := by
  have first : FbsinkMeets rusciiSink (.printChar zeroJunk 65) := fun _ => by decide
  have all := fbsink_safe_iff [vgaFb] ruscii ⟨true, some 0xc0300000, true⟩ (fun _ => 0)
    [.printChar zeroJunk 65, .newline] rusciiSink
    (fbsinkNewline (fbsinkPrintChar zeroJunk 65 rusciiSink)) rfl rusciiSink_cells rusciiSink_init
  exact all.2.1 (((Run.refl _).snoc ⟨rfl, first⟩).snoc ⟨rfl, trivial⟩)

/-- The character 0x80 is read from 2 KiB before the glyph table. -/
theorem character_80_outside_table :
    fbsinkInit [vgaFb] ruscii ⟨true, some 0xc0300000, true⟩ (fun _ => 0) = .ok (.ok rusciiSink) ∧
      (glyphRange ruscii 0x80).start = 0xc0200020 - 2048 ∧
      ¬ FbsinkSafe (fbsinkPrintChar zeroJunk 0x80 rusciiSink) := by
  obtain ⟨sized, safe⟩ := fbsinkInit_sized rfl rusciiSink_cells rusciiSink_init
  refine ⟨rusciiSink_init, by decide, fun after => ?_⟩
  have meets := (fbsinkPrintChar_safe sized safe zeroJunk 0x80).mp after
  have ascii := (meets ⟨_, List.mem_singleton_self _, rfl⟩).1
  revert ascii
  decide

end Examples

end Dxgmx
