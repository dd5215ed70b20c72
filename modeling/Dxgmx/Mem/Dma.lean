import Dxgmx.Mem.Region
import Dxgmx.Utils.Bitmap
import Dxgmx.Utils.Words

open Library

namespace Dxgmx

/-- The fields of a process that `dma_map_range` works on. `dmaBitmap` is `none` as long as
    `BITMAP_NOT_INIT` holds of it. -/
structure DmaProc (PagingStruct : Type) where
  dmaHeap : Heap
  dmaBitmap : Option Bitmap
  pagingStruct : PagingStruct

section

variable {PagingStruct : Type}
  (mmMapPage : Ptr → Ptr → BitVec 16 → PagingStruct → Int × PagingStruct)

/-- The mapping loop, from page `pages - left` on. -/
def dmaMapPages (vaddr paddr : Ptr) (flags : BitVec 16) (pages : Nat) :
    (left : Nat) → PagingStruct → Int × PagingStruct
  | 0, ps => (0, ps)
  | left + 1, ps =>
    let i := BitVec.ofNat 32 ((pages - (left + 1)) * pageSize)
    let (st, ps) := mmMapPage (vaddr + i) (paddr + i) flags ps
    if st < 0 then (st, ps) else dmaMapPages vaddr paddr flags pages left ps

/-- The number of pages of an `n` byte range. The rounded length is a `size_t` again. -/
def dmaPages (n : BitVec 32) : BitVec 32 :=
  (bytesAlignUp64 (n.setWidth 64) (BitVec.ofNat 64 pageSize)).setWidth 32 / BitVec.ofNat 32 pageSize

/-- The bitmap that a call works on. `memory` says whether `kcalloc` succeeds if it has to be made. -/
def DmaProc.bitmap (proc : DmaProc PagingStruct) (memory : Bool) : Except Int Bitmap :=
  match proc.dmaBitmap with
  | some bm => .ok bm
  | none => bitmapInit proc.dmaHeap.pagespan memory

def dmaMapRange (paddr : Ptr) (n : BitVec 32) (flags : BitVec 16) (memory : Bool)
    (proc : DmaProc PagingStruct) : Exec (Except Int Ptr × DmaProc PagingStruct) := do
  assert (paddr.toNat % pageSize = 0)
  match proc.bitmap memory with
  | .error st => pure (.error st, proc)
  | .ok bm =>
    let pages := dmaPages n
    let (start, bm) ← bitmapFirstNFreeAndMark pages bm
    if start < 0 then pure (.error (-12), { proc with dmaBitmap := some bm })
    else
      let vaddr := proc.dmaHeap.vaddr + BitVec.ofInt 32 start * BitVec.ofNat 32 pageSize
      let (st, ps) :=
        dmaMapPages mmMapPage vaddr paddr flags pages.toNat pages.toNat proc.pagingStruct
      let proc := { proc with dmaBitmap := some bm, pagingStruct := ps }
      if st < 0 then pure (.error st, proc) else pure (.ok vaddr, proc)

end

end Dxgmx
