import Dxgmx.Library.Exec
import Dxgmx.Library.Sha1
import Mathlib.Logic.Function.Basic

open Library

namespace Dxgmx

def bwU32Rotl (n : BitVec 32) (rot : Nat) : BitVec 32 := (n <<< rot) ||| (n >>> (32 - rot))

def bwU32FlipEndianness (n : BitVec 32) : BitVec 32 :=
  ((n >>> 24) &&& 0xFF) ||| ((n <<< 8) &&& 0xFF0000) ||| ((n >>> 8) &&& 0xFF00) |||
    ((n <<< 24) &&& 0xFF000000)

/-- A buffer of words, and the bytes it is on a little-endian machine. -/
abbrev WordBuf := Nat → BitVec 32

def WordBuf.byte (buf : WordBuf) (i : Nat) : BitVec 8 := (buf (i / 4)).extractLsb' (8 * (i % 4)) 8

def WordBuf.ofBytes (bytes : Nat → BitVec 8) : WordBuf := fun i =>
  bytes (4 * i + 3) ++ bytes (4 * i + 2) ++ bytes (4 * i + 1) ++ bytes (4 * i)

/-- `memcpy` of bytes to the place `off` in the buffer. -/
def WordBuf.memcpy (buf : WordBuf) (off : Nat) (src : List (BitVec 8)) : WordBuf :=
  .ofBytes fun i => if off ≤ i ∧ i < off + src.length then src.getD (i - off) 0 else buf.byte i

def WordBuf.memset (buf : WordBuf) (off : Nat) (value : BitVec 8) (n : Nat) : WordBuf :=
  buf.memcpy off (List.replicate n value)

structure Sha1Regs where
  h0 : BitVec 32
  h1 : BitVec 32
  h2 : BitVec 32
  h3 : BitVec 32
  h4 : BitVec 32

/-- `msg` are the bytes from `msg.buf` on; their number is `msg.size`. -/
structure Sha1Context where
  regs : Sha1Regs
  blockBuf : WordBuf
  blockSize : Nat
  extrapaddingBuf : WordBuf
  extrapaddingHas : Bool
  msg : List (BitVec 8)
  msgInitsize : BitVec 32

def sha1CreateContext (msg : List (BitVec 8)) : Sha1Context where
  regs := ⟨0x67452301, 0xEFCDAB89, 0x98BADCFE, 0x10325476, 0xC3D2E1F0⟩
  blockBuf := fun _ => 0
  blockSize := 0
  extrapaddingBuf := fun _ => 0
  extrapaddingHas := false
  msg := msg
  msgInitsize := BitVec.ofNat 32 msg.length

/-- The product is a `size_t` before it is a `u64`. -/
def Sha1Context.msgbits (ctx : Sha1Context) : BitVec 64 := (ctx.msgInitsize * 8).setWidth 64

/-- The length of the message, in the last two words of a block. -/
def storeMsgbits (msgbits : BitVec 64) (buf : WordBuf) : WordBuf :=
  Function.update (Function.update buf 14 (bwU32FlipEndianness ((msgbits >>> 32).setWidth 32))) 15
    (bwU32FlipEndianness (msgbits.setWidth 32))

def sha1Pad (ctx : Sha1Context) : Exec Sha1Context :=
  if 64 < ctx.blockSize then .error .panic
  else
    let paddingsize := 64 - ctx.blockSize
    if 1 ≤ paddingsize ∧ paddingsize ≤ 8 then
      .ok { ctx with
        blockBuf := (ctx.blockBuf.memset ctx.blockSize (1 <<< 7) 1).memset (ctx.blockSize + 1) 0
          (paddingsize - 1)
        blockSize := 64
        extrapaddingBuf := storeMsgbits ctx.msgbits (ctx.extrapaddingBuf.memset 0 0 48)
        extrapaddingHas := true }
    else
      .ok { ctx with
        blockBuf := storeMsgbits ctx.msgbits
          ((ctx.blockBuf.memset ctx.blockSize 0 paddingsize).memset ctx.blockSize (1 <<< 7) 1)
        blockSize := 64 }

/-- The variables `a` to `e` of `sha1_process_block`. -/
structure Sha1Vars where
  a : BitVec 32
  b : BitVec 32
  c : BitVec 32
  d : BitVec 32
  e : BitVec 32

def sha1ProcessBlockSwp (f k : BitVec 32) (t : Nat) (buf : WordBuf) (v : Sha1Vars) : Sha1Vars where
  a := bwU32Rotl v.a 5 + f + v.e + buf t + k
  b := v.a
  c := bwU32Rotl v.b 30
  d := v.c
  e := v.d

def sha1ProcessBlock1 (buf : WordBuf) (v : Sha1Vars) : Sha1Vars :=
  (List.range' 0 20).foldl (fun v t =>
    sha1ProcessBlockSwp ((v.b &&& v.c) ||| (~~~v.b &&& v.d)) 0x5A827999 t buf v) v

def sha1ProcessBlock2 (buf : WordBuf) (v : Sha1Vars) : Sha1Vars :=
  (List.range' 20 20).foldl (fun v t =>
    sha1ProcessBlockSwp (v.b ^^^ v.c ^^^ v.d) 0x6ED9EBA1 t buf v) v

def sha1ProcessBlock3 (buf : WordBuf) (v : Sha1Vars) : Sha1Vars :=
  (List.range' 40 20).foldl (fun v t =>
    sha1ProcessBlockSwp ((v.b &&& v.c) ||| (v.b &&& v.d) ||| (v.c &&& v.d)) 0x8F1BBCDC t buf v) v

def sha1ProcessBlock4 (buf : WordBuf) (v : Sha1Vars) : Sha1Vars :=
  (List.range' 60 20).foldl (fun v t =>
    sha1ProcessBlockSwp (v.b ^^^ v.c ^^^ v.d) 0xCA62C1D6 t buf v) v

def flipBlock (buf : WordBuf) : WordBuf :=
  (List.range' 0 16).foldl (fun buf i => Function.update buf i (bwU32FlipEndianness (buf i))) buf

def extendBlock (buf : WordBuf) : WordBuf :=
  (List.range' 16 64).foldl (fun buf i => Function.update buf i
    (bwU32Rotl (buf (i - 3) ^^^ buf (i - 8) ^^^ buf (i - 14) ^^^ buf (i - 16)) 1)) buf

/-- `sha1_process_block` up to the extra block. -/
def sha1ProcessOneBlock (ctx : Sha1Context) : Sha1Context :=
  let buf := extendBlock (flipBlock ctx.blockBuf)
  let v := sha1ProcessBlock4 buf (sha1ProcessBlock3 buf (sha1ProcessBlock2 buf
    (sha1ProcessBlock1 buf ⟨ctx.regs.h0, ctx.regs.h1, ctx.regs.h2, ctx.regs.h3, ctx.regs.h4⟩)))
  { ctx with
    regs := ⟨ctx.regs.h0 + v.a, ctx.regs.h1 + v.b, ctx.regs.h2 + v.c, ctx.regs.h3 + v.d,
      ctx.regs.h4 + v.e⟩
    blockBuf := buf
    blockSize := 0 }

def sha1ProcessBlock (ctx : Sha1Context) : Exec Sha1Context :=
  if ctx.blockSize ≠ 64 then .error .panic
  else if ctx.extrapaddingHas = true then
    let ctx := sha1ProcessOneBlock ctx
    sha1ProcessBlock { ctx with
      extrapaddingHas := false
      blockBuf := ctx.blockBuf.memcpy 0 ((List.range 64).map ctx.extrapaddingBuf.byte)
      blockSize := 64 }
  else .ok (sha1ProcessOneBlock ctx)
termination_by ctx.extrapaddingHas.toNat
decreasing_by simp_all

/-- The number of bytes that were read, and the context after it. -/
def sha1ReadBlock (ctx : Sha1Context) : Nat × Sha1Context :=
  let read := if 64 ≤ ctx.msg.length then 64 else ctx.msg.length
  (read, { ctx with
    blockBuf := ctx.blockBuf.memcpy 0 (ctx.msg.take read)
    blockSize := read
    msg := ctx.msg.drop read })

/-- The loop of `sha1_chew`. `fuel` is for the passes. -/
def sha1ChewLoop : (fuel : Nat) → Sha1Context → Exec Sha1Context
  | 0, _ => .error .fuel
  | fuel + 1, ctx =>
    let (read, ctx) := sha1ReadBlock ctx
    if read = 64 then do
      let ctx ← sha1ProcessBlock ctx
      sha1ChewLoop fuel ctx
    else .ok ctx

/-- The five registers in memory, from `regs.h0` on. -/
def Sha1Regs.bytes (regs : Sha1Regs) : List (BitVec 8) :=
  [regs.h0, regs.h1, regs.h2, regs.h3, regs.h4].flatMap fun h =>
    [h.extractLsb' 0 8, h.extractLsb' 8 8, h.extractLsb' 16 8, h.extractLsb' 24 8]

/-- What `sha1_chew` returns and the digest that it writes, on a little-endian machine. -/
def sha1Chew (fuel : Nat) (buf : List (BitVec 8)) : Exec (Int × List (BitVec 8)) := do
  let ctx ← sha1ChewLoop fuel (sha1CreateContext buf)
  let ctx ← sha1Pad ctx
  let ctx ← sha1ProcessBlock ctx
  let regs : Sha1Regs := ⟨bwU32FlipEndianness ctx.regs.h0, bwU32FlipEndianness ctx.regs.h1,
    bwU32FlipEndianness ctx.regs.h2, bwU32FlipEndianness ctx.regs.h3,
    bwU32FlipEndianness ctx.regs.h4⟩
  pure (0, regs.bytes)

end Dxgmx
