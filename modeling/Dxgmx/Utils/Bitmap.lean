import Mathlib.Logic.Function.Basic
import Mathlib.Data.BitVec
import Dxgmx.Library.Exec

open Library

namespace Dxgmx

structure Bitmap where
  start : Nat → BitVec 8
  size : Nat
  byteCursor : Nat
  bitCursor : Fin 8
  /-- The units are counted by a `size_t`. -/
  addressable : size ≤ 2 ^ 29

def Bitmap.isSet (bm : Bitmap) (unit : Nat) : Bool := (bm.start (unit / 8)).getLsbD (unit % 8)

/-- The inner loop, over the bits `8 - left` to 7. A remaining count of 0 says that it returned. -/
def bitmapMarkByte (byte : BitVec 8) : (left n : Nat) → BitVec 8 × Nat
  | 0, n => (byte, n)
  | left + 1, n =>
    let marked := byte ||| 1#8 <<< (7 - left)
    if n - 1 = 0 then (marked, 0) else bitmapMarkByte marked left (n - 1)

/-- The outer loop, over the bytes `size - left` to `size - 1`. In each byte it starts at `bit`. -/
def bitmapMarkBitmap (bit : Nat) : (left n : Nat) → Bitmap → Int × Bitmap
  | 0, _, bm => (-1, bm)
  | left + 1, n, bm =>
    let i := bm.size - (left + 1)
    let (byte, n) := bitmapMarkByte (bm.start i) (8 - bit) n
    let bm := { bm with start := Function.update bm.start i byte }
    if n = 0 then (0, bm) else bitmapMarkBitmap bit left n bm

/-- `ceil(units / 8.0)` is exact for every `size_t`. `memory` says whether `kcalloc` succeeds. -/
def bitmapInit (units : BitVec 32) (memory : Bool) : Except Int Bitmap :=
  if units = 0 then .error (-22)
  else if memory then
    .ok {
      start := fun _ => 0
      size := (units.toNat + 7) / 8
      byteCursor := 0
      bitCursor := 0
      addressable := by
        have bound := units.isLt
        omega }
  else .error (-12)

/-- The locals of `bitmap_first_n_free_and_mark`. -/
structure BitmapSearch where
  found : Nat
  byteStart : Nat
  bitStart : Nat

def BitmapSearch.extend (search : BitmapSearch) (byte bit : Nat) : BitmapSearch :=
  if search.found = 0 then { found := 1, byteStart := byte, bitStart := bit }
  else { search with found := (search.found + 1) % 2 ^ 32 }

/-- The inner loop, over the bits `8 - left` to 7 of `val`: it stops at the bit that completes a run
    of `n`. -/
def bitmapScanByte (val : BitVec 8) (n byte : Nat) :
    (left : Nat) → BitmapSearch → BitmapSearch × Option Nat
  | 0, search => (search, none)
  | left + 1, search =>
    if val.getLsbD (7 - left) then bitmapScanByte val n byte left { search with found := 0 }
    else
      let search := search.extend byte (7 - left)
      if search.found = n then (search, some (7 - left)) else bitmapScanByte val n byte left search

def bitmapScan (bm : Bitmap) (n : Nat) :
    (left bit : Nat) → BitmapSearch → Option (BitmapSearch × Nat × Nat)
  | 0, _, _ => none
  | left + 1, bit, search =>
    let byte := bm.size - (left + 1)
    match bitmapScanByte (bm.start byte) n byte (8 - bit) search with
    | (search, some bit) => some (search, byte, bit)
    | (search, none) => bitmapScan bm n left 0 search

/-- The cursor just after unit `bit` of `byte`. -/
def Bitmap.moveCursor (bm : Bitmap) (byte bit : Nat) : Bitmap :=
  if next : bit + 1 < 8 then { bm with byteCursor := byte, bitCursor := ⟨bit + 1, next⟩ }
  else { bm with byteCursor := if byte + 1 = bm.size then 0 else byte + 1, bitCursor := 0 }

def bitmapFirstNFreeAndMark (n : BitVec 32) (bm : Bitmap) : Exec (Int × Bitmap) :=
  match bitmapScan bm n.toNat (bm.size - bm.byteCursor) bm.bitCursor.val ⟨0, 0, 0⟩ with
  | none =>
    let bitCursor := if bm.byteCursor < bm.size then 0 else bm.bitCursor
    .ok (-12, { bm with byteCursor := max bm.byteCursor bm.size, bitCursor })
  | some (search, byte, bit) => do
    let (st, marked) := bitmapMarkBitmap search.bitStart (bm.size - search.byteStart) n.toNat bm
    assert (st = 0)
    pure ((BitVec.ofNat 32 (search.byteStart * 8 + search.bitStart)).toInt,
      marked.moveCursor byte bit)

end Dxgmx
