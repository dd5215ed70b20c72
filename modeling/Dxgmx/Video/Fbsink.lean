import Dxgmx.Sinks.Kstdio
import Dxgmx.User.Access
import Dxgmx.Video.FbWrites

open Library

namespace Dxgmx

structure Psf2Header where
  magic : BitVec 32
  headerSize : BitVec 32
  glyphCount : BitVec 32
  glyphSize : BitVec 32
  glyphHeight : BitVec 32
  glyphWidth : BitVec 32

/-- A font file that is linked into the kernel, with all of its glyphs. -/
structure BuiltinFont where
  hdr : Ptr
  header : Psf2Header
  linked : InKernel hdr
  whole : hdr.toNat + header.headerSize.toNat +
    header.glyphCount.toNat * header.glyphSize.toNat ≤ 2 ^ 32

/-- The bytes of the glyph table, which stands behind the header. -/
def BuiltinFont.InTable (font : BuiltinFont) (addr : Ptr) : Prop :=
  font.hdr.toNat + font.header.headerSize.toNat ≤ addr.toNat ∧
    addr.toNat < font.hdr.toNat + font.header.headerSize.toNat +
      font.header.glyphCount.toNat * font.header.glyphSize.toNat

structure ByteRange where
  start : Ptr
  count : Nat

/-- Each byte of the range is a good one. -/
def ByteRange.Within (good : Ptr → Prop) (range : ByteRange) : Prop :=
  ∀ i < range.count, good (range.start + BitVec.ofNat 32 i)

/-- The memory. The rest is a ghost: what was stored to framebuffers, and what was read of the
    font and of the copy of one of its glyphs. -/
structure FbsinkWorld where
  mem : Ptr → Byte
  drawn : List (FrameBuffer × ByteRange)
  fontReads : List ByteRange
  rowReads : List ByteRange

def FbsinkWorld.draw (fb : FrameBuffer) (dest : Ptr) (count : Nat) (mem : Ptr → Byte)
    (world : FbsinkWorld) : FbsinkWorld :=
  { world with
    mem := mem
    drawn := world.drawn ++ [(fb, ⟨dest, count⟩)] }

structure FrameBufferRenderContext where
  fb : FrameBuffer
  cx : BitVec 32
  cy : BitVec 32
  glyphsPerRow : BitVec 32
  glyphsPerCol : BitVec 32

/-- What is on the stack: `glyphrow` before it is assigned, and the bytes behind a pixel. -/
structure StackJunk where
  glyphrow : BitVec 32
  behindPixel : Nat → Byte

/-- The sink's context and its foreground color, with the world. -/
structure FbsinkState where
  fgcolor : KOutputColor
  font : BuiltinFont
  glyphBuf : Ptr
  contexts : List FrameBufferRenderContext
  world : FbsinkWorld

def fbsinkKoutputColor2pixel (color : KOutputColor) : BitVec 32 :=
  if color = 0 then 0x0
  else if color = 1 then 0x00FF0000
  else if color = 2 then 0x0000FF00
  else if color = 3 then 0x00FFFF00
  else if color = 4 then 0x000000FF
  else if color = 5 then 0x00FF00FF
  else if color = 6 then 0x0000FFFF
  else 0x00CCCCCC

def pixelByte (junk : StackJunk) (pixel : BitVec 32) (i : Nat) : Byte :=
  if i < 4 then (pixel >>> (8 * i)).setWidth 8 else junk.behindPixel (i - 4)

def fbWritePixel (junk : StackJunk) (x y pixel : BitVec 32) (fb : FrameBuffer)
    (world : FbsinkWorld) : FbsinkWorld :=
  let off := y * fb.width * fb.bytespp + x * fb.bytespp
  let dest := fb.baseVa + off
  world.draw fb dest fb.bytespp.toNat fun addr =>
    if (addr - dest).toNat < fb.bytespp.toNat then pixelByte junk pixel (addr - dest).toNat
    else world.mem addr

/-- `c` is signed. -/
def psfGetGlyphData (c : Byte) (dest : Ptr) (font : BuiltinFont) (world : FbsinkWorld) :
    FbsinkWorld :=
  let base := font.hdr + font.header.headerSize + c.signExtend 32 * font.header.glyphSize
  let size := font.header.glyphSize.toNat
  { world with
    mem := copiedUpwards size world.mem dest base
    fontReads := world.fontReads ++ [⟨base, size⟩] }

def fbsinkScroll (font : Psf2Header) (ctx : FrameBufferRenderContext) (world : FbsinkWorld) :
    FbsinkWorld :=
  let fb := ctx.fb
  let rowsize := (fb.width * fb.bytespp * font.glyphHeight).toNat
  let rowoffset := font.glyphHeight * fb.bytespp * fb.width
  let world := (List.range' 1 (ctx.glyphsPerCol.toNat - 1)).foldl (fun world i =>
    let src := fb.baseVa + BitVec.ofNat 32 i * rowoffset
    let dst := fb.baseVa + (BitVec.ofNat 32 i - 1) * rowoffset
    world.draw fb dst rowsize (copiedUpwards rowsize world.mem dst src)) world
  let last := fb.baseVa + (ctx.glyphsPerCol - 1) * rowoffset
  world.draw fb last rowsize fun addr =>
    if (addr - last).toNat < rowsize then 0 else world.mem addr

def fbsinkNewlineToCtx (font : Psf2Header) (ctx : FrameBufferRenderContext) (world : FbsinkWorld) :
    FrameBufferRenderContext × FbsinkWorld :=
  let ctx := { ctx with cx := 0 }
  if ctx.glyphsPerCol ≤ ctx.cy + 1 then (ctx, fbsinkScroll font ctx world)
  else ({ ctx with cy := ctx.cy + 1 }, world)

/-- The inner loop of `fbsink_print_char_to_ctx`. -/
def fbsinkDrawRow (junk : StackJunk) (font : Psf2Header) (fb : FrameBuffer)
    (x y pixel glyphrow : BitVec 32) (world : FbsinkWorld) : FbsinkWorld :=
  (List.range font.glyphWidth.toNat).foldl (fun world k =>
    if glyphrow.getLsbD k then
      fbWritePixel junk (x + (font.glyphWidth - 1 - BitVec.ofNat 32 k)) y pixel fb world
    else world) world

/-- `memcpy` of at most four bytes to an integer, which keeps the others. -/
def loadLow (old new : BitVec 32) (bytes : Nat) : BitVec 32 :=
  let mask := BitVec.ofNat 32 (2 ^ (8 * bytes) - 1)
  (old &&& ~~~mask) ||| (new &&& mask)

/-- One turn of the outer loop. A row is less than four bytes, since `fbsink_init` refuses wider
    glyphs. -/
def fbsinkGlyphRow (junk : StackJunk) (font : Psf2Header) (fb : FrameBuffer) (glyphBuf : Ptr)
    (x y pixel : BitVec 32) (state : BitVec 32 × FbsinkWorld) (i : Nat) : BitVec 32 × FbsinkWorld :=
  let (glyphrow, world) := state
  let bytesPerRow := font.glyphWidth / 8
  let src := glyphBuf + BitVec.ofNat 32 i * bytesPerRow
  let glyphrow := loadLow glyphrow (longAt world.mem src) bytesPerRow.toNat
  let world := { world with rowReads := world.rowReads ++ [⟨src, bytesPerRow.toNat⟩] }
  (glyphrow, fbsinkDrawRow junk font fb x (y + BitVec.ofNat 32 i) pixel glyphrow world)

def fbsinkPrintCharToCtx (junk : StackJunk) (c : Byte) (s : FbsinkState)
    (ctx : FrameBufferRenderContext) (world : FbsinkWorld) :
    FrameBufferRenderContext × FbsinkWorld :=
  let font := s.font.header
  let x := ctx.cx * font.glyphWidth
  let y := ctx.cy * font.glyphHeight
  let pixel := fbsinkKoutputColor2pixel s.fgcolor
  let world := psfGetGlyphData c s.glyphBuf s.font world
  let world := ((List.range font.glyphHeight.toNat).foldl
    (fbsinkGlyphRow junk font ctx.fb s.glyphBuf x y pixel) (junk.glyphrow, world)).2
  if ctx.glyphsPerRow ≤ ctx.cx + 1 then fbsinkNewlineToCtx font ctx world
  else ({ ctx with cx := ctx.cx + 1 }, world)

/-- The loop over the contexts, less those of framebuffers that a process has taken over. -/
def fbsinkEachContext
    (f : FrameBufferRenderContext → FbsinkWorld → FrameBufferRenderContext × FbsinkWorld) :
    List FrameBufferRenderContext → FbsinkWorld → List FrameBufferRenderContext × FbsinkWorld
  | [], world => ([], world)
  | ctx :: contexts, world =>
    let (ctx, world) := if ctx.fb.takeover then (ctx, world) else f ctx world
    let (contexts, world) := fbsinkEachContext f contexts world
    (ctx :: contexts, world)

def fbsinkNewline (s : FbsinkState) : FbsinkState :=
  let (contexts, world) := fbsinkEachContext (fbsinkNewlineToCtx s.font.header) s.contexts s.world
  { s with
    contexts := contexts
    world := world }

def fbsinkPrintChar (junk : StackJunk) (c : Byte) (s : FbsinkState) : FbsinkState :=
  let (contexts, world) :=
    fbsinkEachContext (fbsinkPrintCharToCtx junk c s) s.contexts s.world
  { s with
    contexts := contexts
    world := world }

/-- The answers of the allocator to `fbsink_init`. -/
structure FbsinkMem where
  ctx : Bool
  glyphBuf : Option Ptr
  contexts : Bool

def fbsinkContext (font : Psf2Header) (fb : FrameBuffer) : FrameBufferRenderContext where
  fb := fb
  cx := 0
  cy := 0
  glyphsPerRow := fb.width / font.glyphWidth
  glyphsPerCol := fb.height / font.glyphHeight

/-- `kmalloc` has nothing for a glyph of 0 bytes. -/
def fbsinkInit (fbs : List FrameBuffer) (font : BuiltinFont) (alloc : FbsinkMem)
    (mem : Ptr → Byte) : Exec (Except Int FbsinkState) :=
  let header := font.header
  if fbs = [] then .ok (.error (-19))
  else if header.magic ≠ 0x864ab572 then .ok (.error (-22))
  else if 32 ≤ header.glyphWidth then .ok (.error (-22))
  else if alloc.ctx = false then .ok (.error (-12))
  else
    match if header.glyphSize = 0 then none else alloc.glyphBuf with
    | none => .ok (.error (-12))
    | some glyphBuf =>
      if alloc.contexts = false then .ok (.error (-12))
      else if header.glyphHeight = 0 ∨ header.glyphWidth = 0 then .error .fault
      else .ok (.ok ⟨7, font, glyphBuf, fbs.map (fbsinkContext header), ⟨mem, [], [], []⟩⟩)

/-- A call of the sink, with what it finds on the stack; a process that takes over a framebuffer;
    or what others do to the memory and to the color. -/
inductive FbsinkCall
  | printChar (junk : StackJunk) (c : Byte)
  | newline
  | takeover (i : Nat)
  | others (mem : Ptr → Byte) (fgcolor : KOutputColor)

def FrameBufferRenderContext.takeOver (ctx : FrameBufferRenderContext) : FrameBufferRenderContext :=
  { ctx with fb := { ctx.fb with takeover := true } }

def FbsinkCall.run (s : FbsinkState) : FbsinkCall → FbsinkState
  | .printChar junk c => fbsinkPrintChar junk c s
  | .newline => fbsinkNewline s
  | .takeover i => { s with contexts := s.contexts.modify i FrameBufferRenderContext.takeOver }
  | .others mem fgcolor => { s with
    fgcolor := fgcolor
    world := { s.world with mem := mem } }

def FbsinkStep (s : FbsinkState) (call : FbsinkCall) (s' : FbsinkState) : Prop := s' = call.run s

/-- Everything that was stored is inside its framebuffer, everything that was read of the font
    inside the glyph table and of a glyph inside the glyph, and the cursors are on their screens. -/
structure FbsinkSafe (s : FbsinkState) : Prop where
  drawn : ∀ draw ∈ s.world.drawn, draw.2.Within draw.1.Holds
  fontReads : ∀ range ∈ s.world.fontReads, range.Within s.font.InTable
  rowReads : ∀ range ∈ s.world.rowReads,
    range.Within fun addr => (addr - s.glyphBuf).toNat < s.font.header.glyphSize.toNat
  cursors : ∀ ctx ∈ s.contexts, ctx.cx < ctx.glyphsPerRow ∧ ctx.cy < ctx.glyphsPerCol

/-- What is printed where it shows is ASCII, and the rows of a glyph are no more than the glyph. -/
def FbsinkMeets (s : FbsinkState) : FbsinkCall → Prop
  | .printChar _ c => (∃ ctx ∈ s.contexts, ctx.fb.takeover = false) →
    c.toNat < 128 ∧ s.font.header.glyphHeight.toNat * (s.font.header.glyphWidth / 8).toNat ≤
      s.font.header.glyphSize.toNat
  | _ => True

end Dxgmx
