import Dxgmx.Library.Exec
import Dxgmx.Mem.Region
import Dxgmx.Utils.Words

open Library

namespace Dxgmx

structure GAllocatorHeapMeta where
  signature : Nat
  loBitmap : Nat
  loBitmapSize : Nat
  loPool : Nat
  loPoolchunks : Nat
  midBitmap : Nat
  midBitmapSize : Nat
  midPool : Nat
  midPoolchunks : Nat
  hiBitmap : Nat
  hiBitmapSize : Nat
  hiPool : Nat
  hiPoolchunks : Nat
  deriving DecidableEq, Repr

def GAllocatorHeapMeta.load (mem : Nat → Byte) (addr : Nat) : GAllocatorHeapMeta where
  signature := readU32 mem addr
  loBitmap := readU32 mem (addr + 4)
  loBitmapSize := readU32 mem (addr + 8)
  loPool := readU32 mem (addr + 12)
  loPoolchunks := readU32 mem (addr + 16)
  midBitmap := readU32 mem (addr + 20)
  midBitmapSize := readU32 mem (addr + 24)
  midPool := readU32 mem (addr + 28)
  midPoolchunks := readU32 mem (addr + 32)
  hiBitmap := readU32 mem (addr + 36)
  hiBitmapSize := readU32 mem (addr + 40)
  hiPool := readU32 mem (addr + 44)
  hiPoolchunks := readU32 mem (addr + 48)

def GAllocatorHeapMeta.store (heapMeta : GAllocatorHeapMeta) (addr : Nat) (mem : Nat → Byte) :
    Nat → Byte :=
  writeU32s mem addr [heapMeta.signature,
    heapMeta.loBitmap, heapMeta.loBitmapSize, heapMeta.loPool, heapMeta.loPoolchunks,
    heapMeta.midBitmap, heapMeta.midBitmapSize, heapMeta.midPool, heapMeta.midPoolchunks,
    heapMeta.hiBitmap, heapMeta.hiBitmapSize, heapMeta.hiPool, heapMeta.hiPoolchunks]

structure GAllocationMeta where
  signature : Nat
  size : Nat
  chunksize : Nat
  alignment : Nat
  deriving DecidableEq, Repr

/-- `sizeof(GAllocationMeta)`. -/
def allocationMetaSize : Nat := 16

def GAllocationMeta.load (mem : Nat → Byte) (addr : Nat) : GAllocationMeta where
  signature := readU32 mem addr
  size := readU32 mem (addr + 4)
  chunksize := readU32 mem (addr + 8)
  alignment := readU32 mem (addr + 12)

def GAllocationMeta.store (allocmeta : GAllocationMeta) (addr : Nat) (mem : Nat → Byte) :
    Nat → Byte :=
  writeU32s mem addr
    [allocmeta.signature, allocmeta.size, allocmeta.chunksize, allocmeta.alignment]

def heapSignature : Nat := 0xdead5160

def allocationSignature : Nat := 0xdeadadd5

structure AllocationCtx where
  bitmapstart : Nat
  bitmapsize : Nat
  poolstart : Nat
  poolchunks : Nat
  chunksize : Nat
  byte : Nat
  bit : Nat
  deriving DecidableEq, Repr

/-- The quotient in `double` is exact and rounded up. -/
def ceilDiv (n d : Nat) : Nat := (n + d - 1) / d

namespace AllocationCtx

/-- The loop of the source takes whole bytes off `bits`. -/
def advance (bits : Nat) (alloc : AllocationCtx) : AllocationCtx :=
  let byte := alloc.byte + bits / 8
  let bits := bits % 8
  if 8 ≤ alloc.bit + bits then { alloc with byte := byte + 1, bit := alloc.bit + bits - 8 }
  else { alloc with byte := byte, bit := alloc.bit + bits }

def toOffset (alloc : AllocationCtx) : Nat :=
  (alloc.byte * 8 * alloc.chunksize + alloc.bit * alloc.chunksize) % 2 ^ 32

/-- `addr_to_allocationctx_offset`. -/
def atAddr (addr : Nat) (alloc : AllocationCtx) : AllocationCtx :=
  let totalchunks := (addr + 2 ^ 32 - alloc.poolstart) % 2 ^ 32 / alloc.chunksize
  { alloc with byte := totalchunks / 8, bit := totalchunks - totalchunks / 8 * 8 }

def InsidePool (alloc : AllocationCtx) : Prop :=
  alloc.toOffset < alloc.poolchunks * alloc.chunksize % 2 ^ 32

instance (alloc : AllocationCtx) : Decidable alloc.InsidePool := Nat.decLt _ _

def checkBit (mem : Nat → Byte) (alloc : AllocationCtx) : Bool :=
  (mem (alloc.bitmapstart + alloc.byte)).getLsbD alloc.bit

/-- The chunk before, if there is one. -/
def previous (alloc : AllocationCtx) : Option AllocationCtx :=
  if alloc.bit = 0 then
    if alloc.byte = 0 then none else some { alloc with byte := alloc.byte - 1, bit := 7 }
  else some { alloc with bit := alloc.bit - 1 }

end AllocationCtx

open AllocationCtx

/-- The free chunks in one byte of the bitmap. `.error` is the jump to `done`. -/
def contiguousInByte (n : Nat) (byte : Byte) :
    (left : Nat) → AllocationCtx → (foundbits : Nat) → Except Nat (AllocationCtx × Nat)
  | 0, alloc, foundbits => .ok (alloc, foundbits)
  | left + 1, alloc, foundbits =>
    if alloc.InsidePool then
      if byte.getLsbD alloc.bit then .error foundbits
      else if foundbits + 1 = n then .error (foundbits + 1)
      else if alloc.bit = 7 then .ok ({ alloc with bit := 0 }, foundbits + 1)
      else contiguousInByte n byte left { alloc with bit := alloc.bit + 1 } (foundbits + 1)
    else .ok (alloc, foundbits)

def contiguousLoop (mem : Nat → Byte) (n : Nat) :
    (left : Nat) → AllocationCtx → (foundbits : Nat) → Nat
  | 0, _, foundbits => foundbits
  | left + 1, alloc, foundbits =>
    match contiguousInByte n (mem (alloc.bitmapstart + alloc.byte)) 8 alloc foundbits with
    | .error foundbits => foundbits
    | .ok (alloc, foundbits) =>
      contiguousLoop mem n left { alloc with byte := alloc.byte + 1 } foundbits

def gallocatorHasNContiguousBits (mem : Nat → Byte) (alloc : AllocationCtx) (n : Nat) :
    Exec Nat := do
  assert (alloc.bit < 8)
  assert alloc.InsidePool
  let foundbits := contiguousLoop mem n (alloc.bitmapsize - alloc.byte) alloc 0
  assert (0 < foundbits)
  pure foundbits

def putBit (value : Bool) (byte : Byte) (bit : Nat) : Byte :=
  if value then byte ||| 1#8 <<< bit else byte &&& ~~~(1#8 <<< bit)

def putChunk (value : Bool) (alloc : AllocationCtx) (mem : Nat → Byte) : Nat → Byte :=
  let place := alloc.bitmapstart + alloc.byte
  Function.update mem place (putBit value (mem place) alloc.bit)

/-- The marks in one byte of the bitmap. `.error` is the `return 0`. -/
def putInByte (value : Bool) : (left : Nat) → AllocationCtx → (bits : Nat) → (Nat → Byte) →
    Except (Nat → Byte) (AllocationCtx × Nat × (Nat → Byte))
  | 0, alloc, bits, mem => .ok (alloc, bits, mem)
  | left + 1, alloc, bits, mem =>
    if alloc.InsidePool then
      let mem := putChunk value alloc mem
      if bits - 1 = 0 then .error mem
      else if alloc.bit = 7 then .ok ({ alloc with bit := 0 }, bits - 1, mem)
      else putInByte value left { alloc with bit := alloc.bit + 1 } (bits - 1) mem
    else .ok (alloc, bits, mem)

/-- The end of the bitmap is `ASSERT_NOT_HIT`. -/
def putLoop (value : Bool) :
    (left : Nat) → AllocationCtx → (bits : Nat) → (Nat → Byte) → Exec (Nat → Byte)
  | 0, _, _, _ => .error .panic
  | left + 1, alloc, bits, mem =>
    match putInByte value 8 alloc bits mem with
    | .error mem => .ok mem
    | .ok (alloc, bits, mem) => putLoop value left { alloc with byte := alloc.byte + 1 } bits mem

/-- `gallocator_bitmap_set_bits` and `gallocator_bitmap_clear_bits` differ in the value they put. -/
def gallocatorBitmapPutBits (value : Bool) (alloc : AllocationCtx) (bits : Nat)
    (mem : Nat → Byte) : Exec (Int × (Nat → Byte)) :=
  if 7 < alloc.bit ∨ ¬ alloc.InsidePool then .ok (-22, mem)
  else if ¬ (alloc.advance bits).InsidePool then .ok (-22, mem)
  else
    match alloc.previous with
    | none => .ok (1, mem)
    | some metaChunk =>
      match putLoop value (alloc.bitmapsize - alloc.byte) alloc bits
          (putChunk value metaChunk mem) with
      | .error stop => .error stop
      | .ok mem => .ok (0, mem)

def gallocatorBitmapSetBits := gallocatorBitmapPutBits true

def gallocatorBitmapClearBits := gallocatorBitmapPutBits false

def gallocatorFindStartLoop (mem : Nat → Byte) (alignment : Nat) :
    (fuel : Nat) → AllocationCtx → Exec (Bool × AllocationCtx)
  | 0, _ => .error .fuel
  | fuel + 1, alloc =>
    if alloc.byte < alloc.bitmapsize ∧ alloc.InsidePool then
      match alloc.previous with
      | none =>
        gallocatorFindStartLoop mem alignment fuel
          (alloc.advance (ceilDiv alignment alloc.chunksize))
      | some metaChunk =>
        if alloc.checkBit mem = false ∧ metaChunk.checkBit mem = false then .ok (true, alloc)
        else
          gallocatorFindStartLoop mem alignment fuel
            (alloc.advance (ceilDiv alignment alloc.chunksize))
    else .ok (false, alloc)

/-- Every turn of the loop moves on by a chunk. -/
def gallocatorFindStartAligned (mem : Nat → Byte) (alignment : Nat) (alloc : AllocationCtx) :
    Exec (Bool × AllocationCtx) := do
  let startingAddress := (alloc.poolstart + alloc.toOffset) % 2 ^ 32
  if startingAddress % alignment = 0 then
    gallocatorFindStartLoop mem alignment (8 * alloc.bitmapsize + 1) alloc
  else do
    let startingAddress := (bytesAlignUp64 (BitVec.ofNat 64 startingAddress)
      (BitVec.ofNat 64 alignment)).toNat % 2 ^ 32
    assert (startingAddress % alignment = 0)
    gallocatorFindStartLoop mem alignment (8 * alloc.bitmapsize + 1) (alloc.atAddr startingAddress)

/-- The search of `gallocator_do_alloc_aligned`. -/
def gallocatorSearch (mem : Nat → Byte) (alignment chunksneeded : Nat) :
    (fuel : Nat) → AllocationCtx → Exec (Option AllocationCtx)
  | 0, _ => .error .fuel
  | fuel + 1, alloc => do
    let (found, alloc) ← gallocatorFindStartAligned mem alignment alloc
    if found = false then pure none
    else if chunksneeded = 1 then pure (some alloc)
    else do
      let chunksfound ← gallocatorHasNContiguousBits mem alloc chunksneeded
      if chunksfound = chunksneeded then pure (some alloc)
      else gallocatorSearch mem alignment chunksneeded fuel (alloc.advance chunksfound)

/-- The pool with chunks of the given size, at its first chunk. -/
def GAllocatorHeapMeta.pool (heapMeta : GAllocatorHeapMeta) (chunksize : Nat) :
    Option AllocationCtx :=
  if chunksize = 32 then
    some ⟨heapMeta.loBitmap, heapMeta.loBitmapSize, heapMeta.loPool, heapMeta.loPoolchunks, 32, 0, 0⟩
  else if chunksize = 64 then
    some ⟨heapMeta.midBitmap, heapMeta.midBitmapSize, heapMeta.midPool, heapMeta.midPoolchunks, 64,
      0, 0⟩
  else if chunksize = 128 then
    some ⟨heapMeta.hiBitmap, heapMeta.hiBitmapSize, heapMeta.hiPool, heapMeta.hiPoolchunks, 128, 0, 0⟩
  else none

def chunksizeFor (size : Nat) : Nat := if 128 ≤ size then 128 else if 64 ≤ size then 64 else 32

/-- `none` is the null pointer. -/
def gallocatorDoAllocAligned (size alignment : Nat) (heapMeta : GAllocatorHeapMeta)
    (mem : Nat → Byte) : Exec (Option Nat × (Nat → Byte)) :=
  match heapMeta.pool (chunksizeFor size) with
  | none => .error .panic
  | some alloc => do
    let chunksneeded := ceilDiv size alloc.chunksize
    match ← gallocatorSearch mem alignment chunksneeded (alloc.poolchunks + 1) alloc with
    | none => pure (none, mem)
    | some alloc => do
      let (st, mem) ← gallocatorBitmapSetBits alloc chunksneeded mem
      if st ≠ 0 then pure (none, mem)
      else
        let addr := alloc.poolstart + alloc.toOffset
        let allocmeta := ⟨allocationSignature, size, alloc.chunksize, alignment⟩
        pure (some addr, GAllocationMeta.store allocmeta (addr - allocationMetaSize) mem)

def gallocatorInitHeap (heap : Heap) (mem : Nat → Byte) : Exec (Int × (Nat → Byte)) := do
  let heapsize := heap.pagespan.toNat * pageSize % 2 ^ 32
  let metasize := 128
  if heapsize ≤ metasize then pure (-12, mem)
  else do
    let heapsize := heapsize - metasize
    let loBitmapSize := ceilDiv (heapsize / 4 / 32) 8
    let midBitmapSize := ceilDiv (heapsize / 4 / 64) 8
    let hiBitmapSize := ceilDiv (heapsize / 2 / 128) 8
    let heapsize := heapsize - (loBitmapSize + midBitmapSize + hiBitmapSize)
    let loPoolchunks := heapsize / 4 / 32
    let midPoolchunks := heapsize / 4 / 64
    let hiPoolchunks := heapsize / 2 / 128
    let loBitmap := heap.vaddr.toNat + metasize
    let midBitmap := loBitmap + loBitmapSize
    let hiBitmap := loBitmap + loBitmapSize + midBitmapSize
    let hiPool := hiBitmap + hiBitmapSize
    let midPool := hiPool + hiPoolchunks * 128
    let loPool := midPool + midPoolchunks * 64
    let alignedHiPool := (bytesAlignUp64 (BitVec.ofNat 64 hiPool) 128).toNat % 2 ^ 32
    let alignedMidPool := (bytesAlignUp64 (BitVec.ofNat 64 midPool) 64).toNat % 2 ^ 32
    let alignedLoPool := (bytesAlignUp64 (BitVec.ofNat 64 loPool) 32).toNat % 2 ^ 32
    assert (alignedLoPool % 32 = 0)
    assert (alignedMidPool % 64 = 0)
    assert (alignedHiPool % 128 = 0)
    pure (0, GAllocatorHeapMeta.store {
      signature := heapSignature
      loBitmap := loBitmap
      loBitmapSize := loBitmapSize
      loPool := alignedLoPool
      loPoolchunks := loPoolchunks - (if alignedLoPool ≠ loPool then 1 else 0)
      midBitmap := midBitmap
      midBitmapSize := midBitmapSize
      midPool := alignedMidPool
      midPoolchunks := midPoolchunks - (if alignedMidPool ≠ midPool then 1 else 0)
      hiBitmap := hiBitmap
      hiBitmapSize := hiBitmapSize
      hiPool := alignedHiPool
      hiPoolchunks := hiPoolchunks - (if alignedHiPool ≠ hiPool then 1 else 0) }
      heap.vaddr.toNat mem)

def gallocatorAllocAligned (size alignment : Nat) (heap : Heap) (mem : Nat → Byte) :
    Exec (Option Nat × (Nat → Byte)) :=
  let heapMeta := GAllocatorHeapMeta.load mem heap.vaddr.toNat
  if heapMeta.signature ≠ heapSignature then .ok (none, mem)
  else gallocatorDoAllocAligned size alignment heapMeta mem

def gallocatorAllocationSize (addr : Nat) (heap : Heap) (mem : Nat → Byte) : Int :=
  if (GAllocatorHeapMeta.load mem heap.vaddr.toNat).signature ≠ heapSignature then -22
  else
    let allocmeta := GAllocationMeta.load mem (addr - allocationMetaSize)
    if allocmeta.signature ≠ allocationSignature then -22
    else (BitVec.ofNat 32 allocmeta.size).toInt

def gallocatorAllocationAlignment (addr : Nat) (heap : Heap) (mem : Nat → Byte) : Int :=
  if (GAllocatorHeapMeta.load mem heap.vaddr.toNat).signature ≠ heapSignature then -22
  else
    let allocmeta := GAllocationMeta.load mem (addr - allocationMetaSize)
    if allocmeta.signature ≠ allocationSignature then -22
    else (BitVec.ofNat 32 allocmeta.alignment).toInt

def memsetZero (mem : Nat → Byte) (addr n : Nat) : Nat → Byte := fun a =>
  if addr ≤ a ∧ a < addr + n then 0 else mem a

def gallocatorFree (addr : Nat) (heap : Heap) (mem : Nat → Byte) : Exec (Nat → Byte) :=
  let heapMeta := GAllocatorHeapMeta.load mem heap.vaddr.toNat
  if heapMeta.signature ≠ heapSignature then .ok mem
  else
    let allocmeta := GAllocationMeta.load mem (addr - allocationMetaSize)
    if allocmeta.signature ≠ allocationSignature then .error .panic
    else
      match heapMeta.pool allocmeta.chunksize with
      | none => .error .panic
      | some alloc => do
        let chunks := ceilDiv allocmeta.size allocmeta.chunksize
        let (st, mem) ← gallocatorBitmapClearBits (alloc.atAddr addr) chunks mem
        assert (st = 0)
        pure (memsetZero mem (addr - allocationMetaSize) (allocmeta.size + allocationMetaSize))

end Dxgmx
