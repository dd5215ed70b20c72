import Dxgmx.Library.BubbleSort
import Dxgmx.Library.Exec
import Dxgmx.Mem.Region

open Library

namespace Dxgmx

/-- `sizeof(MemoryRegion)`, where a `u64` is aligned to 4 bytes. -/
def memoryRegionSize : Nat := 20

/-- The list holds the `regions_size` regions, `bytes` is the size of the block they stand in. -/
structure MemoryRegionMap where
  regions : List MemoryRegion
  regionsCapacity : Nat
  bytes : Nat
  deriving DecidableEq, Repr

namespace MemoryRegionMap

def load (map : MemoryRegionMap) (i : Nat) : Exec MemoryRegion :=
  if inside : i < map.regions.length ∧ (i + 1) * memoryRegionSize ≤ map.bytes then
    .ok (map.regions.get ⟨i, inside.1⟩)
  else .error .fault

def store (map : MemoryRegionMap) (i : Nat) (region : MemoryRegion) : Exec MemoryRegionMap :=
  if i < map.regions.length ∧ (i + 1) * memoryRegionSize ≤ map.bytes then
    .ok { map with regions := map.regions.set i region }
  else .error .fault

end MemoryRegionMap

/-- The regions behind the index are moved down by one. -/
def mregmapRmRegionAtIndex (idx : Nat) (map : MemoryRegionMap) : Exec (Bool × MemoryRegionMap) :=
  if map.regions.length ≤ idx then .ok (false, map)
  else if idx + 1 < map.regions.length ∧ map.bytes < map.regions.length * memoryRegionSize then
    .error .fault
  else .ok (true, { map with regions := map.regions.eraseIdx idx })

/-- `mem` says whether `krealloc` finds a block of so many bytes. It is asked for as many bytes as
    there are regions. -/
def mregmapEnlarge (mem : Nat → Bool) (n : Nat) (map : MemoryRegionMap) : Bool × MemoryRegionMap :=
  let regions := map.regions ++ List.replicate n ⟨0, 0, 0⟩
  if map.regionsCapacity < map.regions.length + n then
    if mem (map.regions.length + n) then
      (true, ⟨regions, map.regions.length + n, map.regions.length + n⟩)
    else (false, map)
  else (true, { map with regions := regions })

def mregShrink (size : BitVec 64) (region : MemoryRegion) : Int × MemoryRegion :=
  if region.size ≤ size then (1, region) else (0, { region with size := region.size - size })

/-- A `u64` that is kept in a `size_t`. -/
def sizeT (n : BitVec 64) : BitVec 64 := (n.setWidth 32).setWidth 64

/-- The loop body of `mregmap_fix_overlaps`. -/
def mregmapFixOverlap (addReg : MemoryRegion → MemoryRegionMap → Exec (Bool × MemoryRegionMap))
    (region : MemoryRegion) (i : Nat) (map : MemoryRegionMap) : Exec MemoryRegionMap := do
  let tmp ← map.load i
  if tmp.start < region.start then
    if region.start + region.size < tmp.start + tmp.size then do
      let start := region.start + region.size
      let map ← map.store i { tmp with start := start, size := tmp.size - start }
      let added ← addReg ⟨tmp.start, region.start - tmp.start, tmp.perms⟩ map
      pure added.2
    else if region.start < tmp.start + tmp.size then
      let shrunk := mregShrink (sizeT (tmp.start + tmp.size - region.start)) tmp
      if shrunk.1 = 1 then do
        let removed ← mregmapRmRegionAtIndex i map
        pure removed.2
      else map.store i shrunk.2
    else pure map
  else if tmp.start + tmp.size ≤ region.start + region.size then do
    let removed ← mregmapRmRegionAtIndex i map
    pure removed.2
  else if tmp.start < region.start + region.size then
    let shrunk := mregShrink (sizeT (region.start + region.size - tmp.start)) tmp
    if shrunk.1 = 0 then
      map.store i { shrunk.2 with start := region.start + region.size }
    else do
      let removed ← mregmapRmRegionAtIndex i map
      pure removed.2
  else pure map

mutual

def mregmapFixOverlaps (mem : Nat → Bool) :
    (fuel : Nat) → MemoryRegion → (i : Nat) → MemoryRegionMap → Exec MemoryRegionMap
  | 0, _, _, _ => .error .fuel
  | fuel + 1, region, i, map =>
    if i < map.regions.length then do
      let map ← mregmapFixOverlap (mregmapAddReg mem fuel) region i map
      mregmapFixOverlaps mem fuel region (i + 1) map
    else .ok map

def mregmapAddReg (mem : Nat → Bool) :
    (fuel : Nat) → MemoryRegion → MemoryRegionMap → Exec (Bool × MemoryRegionMap)
  | 0, _, _ => .error .fuel
  | fuel + 1, region, map => do
    let map ← mregmapFixOverlaps mem fuel region 0 map
    let enlarged := mregmapEnlarge mem 1 map
    if enlarged.1 then do
      let map ← enlarged.2.store (enlarged.2.regions.length - 1) region
      pure (true, { map with regions := bubbleSort (fun r => r.start.toNat) map.regions })
    else pure (false, map)

end

def mregmapRmReg (mem : Nat → Bool) (fuel : Nat) (start size : BitVec 64) (map : MemoryRegionMap) :
    Exec (Bool × MemoryRegionMap) := do
  let map ← mregmapFixOverlaps mem fuel ⟨start, size, 0⟩ 0 map
  pure (true, map)

end Dxgmx
