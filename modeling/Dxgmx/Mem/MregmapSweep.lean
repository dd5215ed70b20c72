import Dxgmx.Library.Spans
import Dxgmx.Mem.Mregmap

open Library

namespace Dxgmx

namespace MemoryRegion

def span (r : MemoryRegion) : Span Nat (BitVec 8) := ⟨r.start.toNat, r.finish, r.perms⟩

/-- The region is split by `mregmap_fix_overlaps`. -/
def Splits (region r : MemoryRegion) : Prop :=
  r.start < region.start ∧ region.start + region.size < r.start + r.size

/-- The new region that the beginning of a split region becomes. -/
def lowerPart (region r : MemoryRegion) : MemoryRegion :=
  ⟨r.start, region.start - r.start, r.perms⟩

/-- What a split region itself becomes. -/
def upperPart (region r : MemoryRegion) : MemoryRegion :=
  { r with start := region.start + region.size, size := r.size - (region.start + region.size) }

/-- What `mregmap_fix_overlaps` leaves of a region that it does not split. -/
def trimmed (region r : MemoryRegion) : Option MemoryRegion :=
  if r.start < region.start then
    if region.start < r.start + r.size then
      let shrunk := mregShrink (sizeT (r.start + r.size - region.start)) r
      if shrunk.1 = 1 then none else some shrunk.2
    else some r
  else if r.start + r.size ≤ region.start + region.size then none
  else if r.start < region.start + region.size then
    let shrunk := mregShrink (sizeT (region.start + region.size - r.start)) r
    if shrunk.1 = 0 then some { shrunk.2 with start := region.start + region.size } else none
  else some r

/-- What the loop of `mregmap_fix_overlaps` leaves of regions that it does not split. The one behind
    a removed region is not looked at. -/
def sweep (region : MemoryRegion) : List MemoryRegion → List MemoryRegion
  | [] => []
  | [r] => (region.trimmed r).toList
  | r :: q :: rest =>
    if (region.trimmed r).isSome then (region.trimmed r).toList ++ sweep region (q :: rest)
    else q :: sweep region rest

attribute [grind =] sweep

theorem sweep_keep {region r r' : MemoryRegion} (kept : region.trimmed r = some r')
    (rest : List MemoryRegion) : region.sweep (r :: rest) = r' :: region.sweep rest := by
  rcases rest with _ | ⟨q, rest⟩
  · simp [sweep, kept]
  · simp [sweep, kept]

theorem sweep_last {region r : MemoryRegion} (removed : region.trimmed r = none) :
    region.sweep [r] = [] := by
  simp [sweep, removed]

theorem sweep_skip {region r : MemoryRegion} (removed : region.trimmed r = none)
    (q : MemoryRegion) (rest : List MemoryRegion) :
    region.sweep (r :: q :: rest) = q :: region.sweep rest := by
  simp [sweep, removed]

theorem sweep_append {region : MemoryRegion} {front : List MemoryRegion}
    (same : ∀ r ∈ front, region.trimmed r = some r) (rest : List MemoryRegion) :
    region.sweep (front ++ rest) = front ++ region.sweep rest := by
  induction front with
  | nil => rfl
  | cons r front ih =>
    rw [List.cons_append, sweep_keep (same r List.mem_cons_self),
      ih fun q member => same q (List.mem_cons_of_mem _ member)]
    rfl

theorem sweep_same {region : MemoryRegion} {rest : List MemoryRegion}
    (same : ∀ r ∈ rest, region.trimmed r = some r) : region.sweep rest = rest := by
  have all := sweep_append same []
  rw [List.append_nil] at all
  rw [all]
  exact List.append_nil rest

theorem sweep_none {region r : MemoryRegion} {rest : List MemoryRegion}
    (removed : region.trimmed r = none) (same : ∀ q ∈ rest, region.trimmed q = some q) :
    region.sweep (r :: rest) = rest := by
  rcases rest with _ | ⟨q, rest⟩
  · exact sweep_last removed
  · rw [sweep_skip removed, sweep_same fun p inside => same p (List.mem_cons_of_mem _ inside)]

end MemoryRegion

/-- The block is large enough for the regions. -/
def MemoryRegionMap.Held (map : MemoryRegionMap) : Prop :=
  map.regions.length * memoryRegionSize ≤ map.bytes

section

variable {map : MemoryRegionMap} {front rest : List MemoryRegion} {r r' region : MemoryRegion}

theorem MemoryRegionMap.Held.cell (held : map.Held) (place : map.regions = front ++ r :: rest) :
    front.length < map.regions.length ∧ (front.length + 1) * memoryRegionSize ≤ map.bytes := by
  have length := congrArg List.length place
  rw [List.length_append, List.length_cons] at length
  unfold Held memoryRegionSize at *
  omega

theorem load_front (held : map.Held) (place : map.regions = front ++ r :: rest) :
    map.load front.length = .ok r := by
  unfold MemoryRegionMap.load
  rw [dif_pos (held.cell place)]
  congr 1
  simp [place]

theorem store_front (held : map.Held) (place : map.regions = front ++ r :: rest) :
    map.store front.length r' = .ok { map with regions := front ++ r' :: rest } := by
  unfold MemoryRegionMap.store
  rw [if_pos (held.cell place)]
  simp [place]

theorem rmRegion_front (held : map.Held) (place : map.regions = front ++ r :: rest) :
    mregmapRmRegionAtIndex front.length map = .ok (true, { map with regions := front ++ rest }) := by
  unfold mregmapRmRegionAtIndex
  rw [if_neg (Nat.not_le_of_lt (held.cell place).1),
    if_neg fun outside => absurd held (Nat.not_le_of_lt outside.2)]
  simp [place, List.eraseIdx_append_of_length_le]

theorem mregmapFixOverlap_trims {addReg : MemoryRegion → MemoryRegionMap → Exec (Bool × MemoryRegionMap)}
    (held : map.Held) (place : map.regions = front ++ r :: rest) (whole : ¬region.Splits r) :
    mregmapFixOverlap addReg region front.length map =
      .ok { map with regions := front ++ (region.trimmed r).toList ++ rest } := by
  have same : { map with regions := front ++ r :: rest } = map := by rw [← place]
  have split : r.start < region.start → ¬region.start + region.size < r.start + r.size :=
    fun before inside => whole ⟨before, inside⟩
  unfold mregmapFixOverlap MemoryRegion.trimmed
  rw [load_front held place, Exec.ok_bind]
  simp only [rmRegion_front held place, store_front held place, Exec.ok_bind]
  by_cases before : r.start < region.start
  · rw [if_pos before, if_pos before, if_neg (split before)]
    split_ifs with meets gone
    · simp [pure, Except.pure]
    · simp
    · simp [pure, Except.pure, same]
  · rw [if_neg before, if_neg before]
    split_ifs with covered meets kept
    · simp [pure, Except.pure]
    · simp
    · simp [pure, Except.pure]
    · simp [pure, Except.pure, same]

theorem mregmapFixOverlap_splits
    {addReg : MemoryRegion → MemoryRegionMap → Exec (Bool × MemoryRegionMap)}
    (held : map.Held) (place : map.regions = front ++ r :: rest) (splits : region.Splits r) :
    mregmapFixOverlap addReg region front.length map = (do
      let added ← addReg (region.lowerPart r)
        { map with regions := front ++ region.upperPart r :: rest }
      pure added.2) := by
  unfold mregmapFixOverlap
  rw [load_front held place, Exec.ok_bind, if_pos splits.1, if_pos splits.2]
  simp only [store_front held place, Exec.ok_bind]
  rfl

theorem MemoryRegionMap.Held.shrink {regions : List MemoryRegion} (held : map.Held)
    (short : regions.length ≤ map.regions.length) :
    MemoryRegionMap.Held { map with regions := regions } := by
  unfold Held memoryRegionSize at *
  dsimp only
  omega

theorem mregmapFixOverlaps_end {mem : Nat → Bool} {fuel i : Nat} (behind : map.regions.length ≤ i) :
    mregmapFixOverlaps mem (fuel + 1) region i map = .ok map := by
  rw [mregmapFixOverlaps, if_neg (Nat.not_lt_of_le behind)]

theorem mregmapFixOverlaps_trims {mem : Nat → Bool} {fuel : Nat} (held : map.Held)
    (place : map.regions = front ++ r :: rest) (whole : ¬region.Splits r) :
    mregmapFixOverlaps mem (fuel + 1) region front.length map =
      mregmapFixOverlaps mem fuel region (front.length + 1)
        { map with regions := front ++ (region.trimmed r).toList ++ rest } := by
  rw [mregmapFixOverlaps, if_pos (held.cell place).1, mregmapFixOverlap_trims held place whole]
  rfl

theorem mregmapFixOverlaps_sweeps (mem : Nat → Bool) (fuel : Nat) (held : map.Held)
    (place : map.regions = front ++ rest) (whole : ∀ r ∈ rest, ¬region.Splits r) :
    mregmapFixOverlaps mem fuel region front.length map =
        .ok { map with regions := front ++ region.sweep rest } ∨
      (fuel ≤ rest.length ∧
        mregmapFixOverlaps mem fuel region front.length map = .error .fuel) := by
  induction fuel generalizing front rest map with
  | zero => exact .inr ⟨Nat.zero_le _, rfl⟩
  | succ fuel ih =>
    rcases rest with _ | ⟨r, rest⟩
    · left
      rw [List.append_nil] at place
      rw [mregmapFixOverlaps_end (by rw [place])]
      simp [MemoryRegion.sweep, ← place]
    rw [mregmapFixOverlaps_trims held place (whole r List.mem_cons_self)]
    have length := congrArg List.length place
    rw [List.length_append, List.length_cons] at length
    cases trim : region.trimmed r with
    | some r' =>
      rw [MemoryRegion.sweep_keep trim, List.length_cons, Nat.add_le_add_iff_right]
      have next := @ih { map with regions := front ++ [r'] ++ rest } (front ++ [r']) rest
        (held.shrink (by simp; omega)) rfl fun q member => whole q (List.mem_cons_of_mem _ member)
      simpa using next
    | none =>
      rcases rest with _ | ⟨q, rest⟩
      · rw [MemoryRegion.sweep_last trim]
        cases fuel with
        | zero => exact .inr ⟨Nat.le_refl _, rfl⟩
        | succ fuel =>
          left
          rw [mregmapFixOverlaps_end (by simp)]
          simp
      · rw [MemoryRegion.sweep_skip trim]
        have next := @ih { map with regions := front ++ [q] ++ rest } (front ++ [q]) rest
          (held.shrink (by simp at *; omega)) rfl fun p member =>
            whole p (List.mem_cons_of_mem _ (List.mem_cons_of_mem _ member))
        rw [List.length_append, List.length_singleton] at next
        simp only [List.append_assoc, List.singleton_append, Option.toList_none,
          List.nil_append, List.length_cons] at next ⊢
        rcases next with done | ⟨short, stops⟩
        · exact .inl done
        · exact .inr ⟨by omega, stops⟩

theorem mregmapFixOverlaps_whole (mem : Nat → Bool) (fuel : Nat) (held : map.Held)
    (whole : ∀ r ∈ map.regions, ¬region.Splits r) :
    mregmapFixOverlaps mem fuel region 0 map =
        .ok { map with regions := region.sweep map.regions } ∨
      (fuel ≤ map.regions.length ∧ mregmapFixOverlaps mem fuel region 0 map = .error .fuel) :=
  mregmapFixOverlaps_sweeps mem fuel held (show map.regions = [] ++ map.regions from rfl) whole

theorem mregmapFixOverlaps_skip (mem : Nat → Bool) (fuel : Nat) {mid : List MemoryRegion}
    (held : map.Held) (place : map.regions = front ++ mid ++ rest)
    (whole : ∀ r ∈ mid, ¬region.Splits r) (same : ∀ r ∈ mid, region.trimmed r = some r) :
    mregmapFixOverlaps mem fuel region front.length map =
      mregmapFixOverlaps mem (fuel - mid.length) region (front ++ mid).length map := by
  induction mid generalizing front fuel with
  | nil => rw [List.append_nil, List.length_nil, Nat.sub_zero]
  | cons r mid ih =>
    rcases fuel with _ | fuel
    · rw [Nat.zero_sub]
      rfl
    · have here : map.regions = front ++ r :: (mid ++ rest) := by simp [place]
      have stays : { map with regions := front ++ (some r).toList ++ (mid ++ rest) } = map := by
        rw [Option.toList_some, List.append_assoc, List.singleton_append, ← here]
      rw [mregmapFixOverlaps_trims held here (whole r List.mem_cons_self),
        same r List.mem_cons_self, stays, List.length_cons, Nat.add_sub_add_right]
      have next := @ih (front ++ [r]) fuel (by simp [place])
        (fun q member => whole q (List.mem_cons_of_mem _ member))
        fun q member => same q (List.mem_cons_of_mem _ member)
      simpa using next

end

/-- There is a cell for each region up to the capacity, and not more regions than that. -/
structure MemoryRegionMap.Sized (map : MemoryRegionMap) : Prop where
  room : map.regions.length ≤ map.regionsCapacity
  block : map.regionsCapacity * memoryRegionSize ≤ map.bytes

section

variable {map : MemoryRegionMap} {region : MemoryRegion}

theorem MemoryRegionMap.Sized.held (sized : map.Sized) : map.Held :=
  (Nat.mul_le_mul_right _ sized.room).trans sized.block

theorem mregmapEnlarge_room {mem : Nat → Bool} (more : map.regions.length < map.regionsCapacity) :
    mregmapEnlarge mem 1 map = (true, { map with regions := map.regions ++ [⟨0, 0, 0⟩] }) := by
  unfold mregmapEnlarge
  rw [if_neg (Nat.not_lt_of_le more)]
  rfl

theorem mregmapEnlarge_full {mem : Nat → Bool} (full : ¬map.regions.length < map.regionsCapacity) :
    mregmapEnlarge mem 1 map =
      if mem (map.regions.length + 1) then
        (true, ⟨map.regions ++ [⟨0, 0, 0⟩], map.regions.length + 1, map.regions.length + 1⟩)
      else (false, map) := by
  unfold mregmapEnlarge
  rw [if_pos (by omega)]
  rfl

/-- The new region after the overlaps are gone. A block of as many bytes as there are regions has no
    place for it. -/
theorem mregmapAddReg_inserts {mem : Nat → Bool} {fuel : Nat} {map' : MemoryRegionMap}
    (fixed : mregmapFixOverlaps mem fuel region 0 map = .ok map') (sized : map'.Sized) :
    mregmapAddReg mem (fuel + 1) region map =
      if map'.regions.length < map'.regionsCapacity then
        .ok (true, { map' with
          regions := bubbleSort (fun r => r.start.toNat) (map'.regions ++ [region]) })
      else if mem (map'.regions.length + 1) then .error .fault else .ok (false, map') := by
  have cells := sized.block
  unfold memoryRegionSize at cells
  rw [mregmapAddReg, fixed, Exec.ok_bind]
  by_cases more : map'.regions.length < map'.regionsCapacity
  · rw [if_pos more, mregmapEnlarge_room more]
    have place : (map'.regions.length + 1) * memoryRegionSize ≤ map'.bytes := by
      unfold memoryRegionSize
      omega
    simp [MemoryRegionMap.store, place, pure, Except.pure, Exec.ok_bind]
  · rw [if_neg more, mregmapEnlarge_full more]
    have outside : ¬(map'.regions.length + 1) * memoryRegionSize ≤ map'.regions.length + 1 := by
      unfold memoryRegionSize
      omega
    split_ifs with found
    · simp [MemoryRegionMap.store, outside, bind, Except.bind]
    · rfl

end

end Dxgmx
