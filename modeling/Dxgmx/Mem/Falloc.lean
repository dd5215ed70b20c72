import Mathlib.Logic.Function.Basic
import Mathlib.Data.Fin.Basic
import Dxgmx.Library.Exec
import Dxgmx.Library.Runs
import Dxgmx.Mem.Region
import Dxgmx.Utils.Bitwise

open Library

namespace Dxgmx

def pageframePoolSize : Nat := 1024 * 16

/-- The globals of the page frame allocator. A set bit of the pool is a frame in use. -/
structure Falloc where
  pgframePool : Fin pageframePoolSize → BitVec 64
  pgframesCnt : BitVec 32
  pgframesUserCursor : Fin pageframePoolSize
  pgframesUserSubcursor : Fin 64

def Falloc.boot : Falloc where
  pgframePool := fun _ => 0
  pgframesCnt := 0
  pgframesUserCursor := ⟨pageframePoolSize - 1, by decide⟩
  pgframesUserSubcursor := 63

/-- `base / PAGESIZE / 64`, which fits the 16-bit index since `base` has 32 bits. -/
def frameWord (base : Ptr) : Fin pageframePoolSize :=
  ⟨base.toNat / pageSize / 64, by
    have bound := base.isLt
    unfold pageSize pageframePoolSize
    omega⟩

def frameBit (base : Ptr) : Nat := base.toNat / pageSize - (frameWord base).val * 64

def frameBase (word : Fin pageframePoolSize) (bit : Fin 64) : Ptr :=
  BitVec.ofNat 32 (word.val * 64 * pageSize + bit.val * pageSize)

def Falloc.available (s : Falloc) (base : Ptr) : Bool :=
  !(s.pgframePool (frameWord base)).getLsbD (frameBit base)

def fallocIsFrameAvailable (base : Ptr) (s : Falloc) : Exec Bool := do
  assert (base.toNat % pageSize = 0)
  pure (s.available base)

def fallocGetFreeFramesCount (s : Falloc) : BitVec 32 := s.pgframesCnt

def ffreeOne (base : Ptr) (s : Falloc) : Exec Falloc := do
  assert (base.toNat % pageSize = 0)
  let i := frameWord base
  pure { s with
    pgframePool := Function.update s.pgframePool i (bwClear (s.pgframePool i) (frameBit base))
    pgframesCnt := s.pgframesCnt + 1 }

/-- The frame count is not touched on this path. -/
def fallocOneAt (base : Ptr) (s : Falloc) : Exec (Int × Falloc) := do
  assert (base.toNat % pageSize = 0)
  if ← fallocIsFrameAvailable base s then
    let i := frameWord base
    pure (0, { s with
      pgframePool := Function.update s.pgframePool i (bwSet (s.pgframePool i) (frameBit base)) })
  else
    pure (-12, s)

/-- The inner loop: the first clear bit at or below `below - 1`, going down. -/
def fallocScanWord (word : BitVec 64) : (below : Nat) → below ≤ 64 → Option (Fin 64)
  | 0, _ => none
  | bit + 1, bound =>
    if word.getLsbD bit then fallocScanWord word bit (by omega) else some ⟨bit, by omega⟩

/-- The outer loop. Word 0 is never looked at. -/
def fallocScan (pool : Fin pageframePoolSize → BitVec 64) :
    (cursor : Nat) → cursor < pageframePoolSize → Fin 64 → Option (Fin pageframePoolSize × Fin 64)
  | 0, _, _ => none
  | cursor + 1, bound, sub =>
    match fallocScanWord (pool ⟨cursor + 1, bound⟩) (sub.val + 1) (by omega) with
    | some bit => some (⟨cursor + 1, bound⟩, bit)
    | none => fallocScan pool cursor (by omega) 63

def fallocOneUser (s : Falloc) : Ptr × Falloc :=
  match fallocScan s.pgframePool s.pgframesUserCursor.val s.pgframesUserCursor.isLt
      s.pgframesUserSubcursor with
  | some (i, bit) =>
    (frameBase i bit, { s with
      pgframePool := Function.update s.pgframePool i (bwSet (s.pgframePool i) bit.val)
      pgframesCnt := s.pgframesCnt - 1
      pgframesUserCursor := i
      pgframesUserSubcursor := bit })
  | none =>
    if s.pgframesUserCursor.val = 0 then (0, s)
    else (0, { s with pgframesUserCursor := ⟨0, by decide⟩, pgframesUserSubcursor := 63 })

/-- `frame` and `stop` are 64-bit, but `ffree_one` takes a 32-bit pointer. -/
def pageframeAddAvailable (stop : BitVec 64) : (fuel : Nat) → BitVec 64 → Falloc → Exec Falloc
  | 0, _, _ => .error .fuel
  | fuel + 1, frame, s =>
    if frame < stop then do
      let s ← ffreeOne (frame.setWidth 32) s
      pageframeAddAvailable stop fuel (frame + BitVec.ofNat 64 pageSize) s
    else .ok s

def fallocInit (fuel : Nat) (mregmap : List MemoryRegion) (s : Falloc) : Exec Falloc := do
  let cleared := { s with pgframePool := fun _ => BitVec.allOnes 64 }
  let s ← mregmap.foldlM
    (fun s area => pageframeAddAvailable (area.start + area.size) fuel area.start s) cleared
  assert (s.pgframesCnt ≠ 0)
  pure s

end Dxgmx
