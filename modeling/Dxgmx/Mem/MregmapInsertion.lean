import Dxgmx.Mem.MregmapBounds
import Dxgmx.Mem.MregmapRemoval

open Library

namespace Dxgmx

/-- `region` is in `after`, the other addresses are covered as in `before`, and the regions are sorted,
    apart and not empty. -/
structure AddsExactly (region : MemoryRegion) (before after : List MemoryRegion) : Prop where
  added : region ∈ after
  others : ∀ (x : BitVec 64) (perms : BitVec 8),
    ¬(region.start.toNat ≤ x.toNat ∧ x.toNat < region.finish) →
      (Covers (after.map MemoryRegion.span) x.toNat perms ↔
        Covers (before.map MemoryRegion.span) x.toNat perms)
  ordered : Ordered (after.map MemoryRegion.span)

section

variable {region r : MemoryRegion} {left rest before : List MemoryRegion}

/-- Sorted in, the region is added exactly if the loop has removed exactly its addresses. -/
theorem sort_adds_iff (some_ : 0 < region.size.toNat) (regionEnds : region.finish < 2 ^ 64)
    (sorted : left.Pairwise fun r q => r.start.toNat ≤ q.start.toNat) :
    AddsExactly region before (bubbleSort (fun r => r.start.toNat) (left ++ [region])) ↔
      RemovesExactly region before left := by
  have place : (bubbleSort (fun r : MemoryRegion => r.start.toNat) (left ++ [region])).Perm
      (region :: left) := bubbleSort_perm.trans (List.perm_append_singleton _ _)
  have spans := place.map MemoryRegion.span
  rw [List.map_cons] at spans
  have wide : region.span.lo < region.span.hi := by
    show region.start.toNat < region.start.toNat + _
    omega
  have inserts := ordered_insert_iff spans (List.pairwise_map.mpr bubbleSort_sorted)
    (List.pairwise_map.mpr sorted) wide
  constructor
  · rintro ⟨-, others, ordered⟩
    rcases inserts.mp ordered with ⟨kept, free⟩
    refine ⟨fun x perms => ?_, kept⟩
    by_cases within : region.start.toNat ≤ x.toNat ∧ x.toNat < region.finish
    · constructor
      · exact fun covered => absurd covered (free x.toNat within perms)
      · exact fun both => absurd within both.2
    · rw [← others x perms within, covers_perm spans, covers_cons]
      constructor
      · exact fun covered => ⟨.inr covered, within⟩
      · rintro ⟨⟨inside, -⟩ | covered, -⟩
        · exact absurd inside within
        · exact covered
  · intro exact_
    refine ⟨place.mem_iff.mpr List.mem_cons_self, fun x perms within => ?_, inserts.mpr
      ⟨exact_.ordered, fun x inside perms covered => ?_⟩⟩
    · rw [covers_perm spans, covers_cons, exact_.covers x perms]
      constructor
      · rintro (⟨inside, -⟩ | ⟨covered, -⟩)
        · exact absurd inside within
        · exact covered
      · exact fun covered => .inr ⟨covered, within⟩
    · have bound : x < 2 ^ 64 := inside.2.trans regionEnds
      exact ((exact_.at bound perms).mp covered).2 inside

theorem trimmed_start (regionEnds : region.finish < 2 ^ 64) (unsplit : Unsplit region r)
    {cut : MemoryRegion} (trim : region.trimmed r = some cut) :
    r.start.toNat ≤ cut.start.toNat ∧ cut.start.toNat < r.finish := by
  have some_ := unsplit.some_
  by_cases apart : r.finish ≤ region.start.toNat ∨ region.finish ≤ r.start.toNat
  · rw [trimmed_apart regionEnds unsplit.ends some_ apart] at trim
    cases trim
    exact ⟨Nat.le_refl _, some_⟩
  rw [not_or, Nat.not_le, Nat.not_le] at apart
  by_cases first : r.start.toNat < region.start.toNat
  · rcases trimmed_end unsplit.ends first apart.1 with ⟨cut', trim', start, -⟩
    cases trim.symm.trans trim'
    rw [start]
    exact ⟨Nat.le_refl _, some_⟩
  · by_cases last : r.finish ≤ region.finish
    · rw [trimmed_covered regionEnds unsplit.ends (Nat.le_of_not_lt first) last] at trim
      cases trim
    · rcases trimmed_beginning regionEnds unsplit.ends (by omega) apart.2 (by omega) with
        ⟨cut', trim', start, -⟩
      cases trim.symm.trans trim'
      omega

theorem sweep_sorted (regionEnds : region.finish < 2 ^ 64) (unsplit : ∀ r ∈ rest, Unsplit region r)
    (before : rest.Pairwise fun r q => r.finish ≤ q.start.toNat) :
    (region.sweep rest).Pairwise (fun r q => r.start.toNat ≤ q.start.toNat) ∧
      ∀ q ∈ region.sweep rest, ∃ p ∈ rest, p.start.toNat ≤ q.start.toNat := by
  fun_induction MemoryRegion.sweep region rest with
  | case1 => exact ⟨.nil, fun q member => absurd member List.not_mem_nil⟩
  | case2 r =>
    cases trim : region.trimmed r with
    | none => exact ⟨.nil, fun q member => absurd member List.not_mem_nil⟩
    | some cut =>
      refine ⟨List.pairwise_singleton _ _, fun q member => ?_⟩
      cases List.mem_singleton.mp member
      exact ⟨r, List.mem_cons_self, (trimmed_start regionEnds (unsplit r List.mem_cons_self) trim).1⟩
  | case3 r q rest kept ih =>
    rcases ih (fun p inside => unsplit p (List.mem_cons_of_mem _ inside)) before.tail with
      ⟨sorted, origin⟩
    rcases Option.isSome_iff_exists.mp kept with ⟨cut, trim⟩
    have start := trimmed_start regionEnds (unsplit r List.mem_cons_self) trim
    rw [trim, Option.toList_some, List.singleton_append]
    refine ⟨.cons (fun p inside => ?_) sorted, fun p inside => ?_⟩
    · rcases origin p inside with ⟨old, member, low⟩
      have := List.rel_of_pairwise_cons before member
      omega
    · rcases List.mem_cons.mp inside with rfl | inside
      · exact ⟨r, List.mem_cons_self, start.1⟩
      · rcases origin p inside with ⟨old, member, low⟩
        exact ⟨old, List.mem_cons_of_mem _ member, low⟩
  | case4 r q rest removed ih =>
    rcases ih (fun p inside => unsplit p (by simp [inside])) before.tail.tail with ⟨sorted, origin⟩
    have some_ := (unsplit q (by simp)).some_
    refine ⟨.cons (fun p inside => ?_) sorted, fun p inside => ?_⟩
    · rcases origin p inside with ⟨old, member, low⟩
      have := List.rel_of_pairwise_cons before.tail member
      omega
    · rcases List.mem_cons.mp inside with rfl | inside
      · exact ⟨p, by simp, Nat.le_refl _⟩
      · rcases origin p inside with ⟨old, member, low⟩
        exact ⟨old, by simp [member], low⟩

theorem sweep_length (regionEnds : region.finish < 2 ^ 64) (unsplit : ∀ r ∈ rest, Unsplit region r) :
    (region.sweep rest).length ≤ rest.length ∧ ((region.sweep rest).length < rest.length ↔
      ∃ r ∈ rest, region.start.toNat ≤ r.start.toNat ∧ r.finish ≤ region.finish) := by
  have kept_ : ∀ r ∈ rest, ∀ cut, region.trimmed r = some cut →
      ¬(region.start.toNat ≤ r.start.toNat ∧ r.finish ≤ region.finish) := by
    rintro r member cut trim ⟨first, last⟩
    rw [trimmed_covered regionEnds (unsplit r member).ends first last] at trim
    cases trim
  fun_induction MemoryRegion.sweep region rest with
  | case1 => simp
  | case2 r =>
    have member := List.mem_singleton_self r
    cases trim : region.trimmed r with
    | none => simpa using (unsplit r member).none regionEnds trim
    | some cut => simpa using kept_ r member cut trim
  | case3 r q rest kept ih =>
    rcases ih (fun p inside => unsplit p (List.mem_cons_of_mem _ inside))
      (fun p inside => kept_ p (List.mem_cons_of_mem _ inside)) with ⟨short, shorter⟩
    rcases Option.isSome_iff_exists.mp kept with ⟨cut, trim⟩
    have stays := kept_ r List.mem_cons_self cut trim
    rw [trim, Option.toList_some, List.singleton_append, List.length_cons, List.length_cons,
      Nat.add_le_add_iff_right, Nat.add_lt_add_iff_right, List.exists_mem_cons_iff, shorter]
    exact ⟨short, .inr, fun covered => covered.resolve_left stays⟩
  | case4 r q rest removed ih =>
    have trim : region.trimmed r = none := by simpa using removed
    have covered := (unsplit r List.mem_cons_self).none regionEnds trim
    have short := (ih (fun p inside => unsplit p (by simp [inside]))
      (fun p inside => kept_ p (by simp [inside]))).1
    simp only [List.length_cons]
    exact ⟨by omega, fun _ => ⟨r, List.mem_cons_self, covered⟩, fun _ => by omega⟩

end

/-- A region around `region` has cells left for its second part and for `region`, or else one region is
    covered by it or there is a cell left. -/
structure Insertable (region : MemoryRegion) (map : MemoryRegionMap) : Prop
    extends Removable region map where
  parts : ∀ r ∈ map.regions, r.start.toNat < region.start.toNat → region.finish < r.finish →
    map.regions.length + 1 < map.regionsCapacity
  room : map.regions.length < map.regionsCapacity ∨
    ∃ r ∈ map.regions, region.start.toNat ≤ r.start.toNat ∧ r.finish ≤ region.finish

section

variable {map : MemoryRegionMap} {region r : MemoryRegion} {front rest : List MemoryRegion}
  {mem : Nat → Bool}

theorem mregmapFixOverlaps_sized {fuel i : Nat} {left : MemoryRegionMap} (sized : map.Sized)
    (fixed : mregmapFixOverlaps mem fuel region i map = .ok left) : left.Sized := by
  rcases (mregmap_follows fuel).1 region i map sized with ⟨-, -, faults⟩ | ⟨-, same⟩
  · cases faults.symm.trans fixed
  · exact (((mregmap_refused fuel).1 region i map sized).leaves left (same.symm.trans fixed)).1

theorem mregmapAddReg_adds_iff (sized : map.Sized) {good : List MemoryRegion → Prop} :
    (∃ fuel after, mregmapAddReg mem fuel region map = .ok (true, after) ∧ good after.regions) ↔
      ∃ fuel left, mregmapFixOverlaps mem fuel region 0 map = .ok left ∧
        left.regions.length < left.regionsCapacity ∧
        good (bubbleSort (fun r => r.start.toNat) (left.regions ++ [region])) := by
  constructor
  · rintro ⟨_ | fuel, after, run, right⟩
    · cases run
    cases fixed : mregmapFixOverlaps mem fuel region 0 map with
    | error stop =>
      rw [mregmapAddReg, fixed] at run
      cases run
    | ok left =>
      rw [mregmapAddReg_inserts fixed (mregmapFixOverlaps_sized sized fixed)] at run
      split_ifs at run with more
      · cases run
        exact ⟨fuel, left, fixed, more, right⟩
      · cases run
  · rintro ⟨fuel, left, fixed, more, right⟩
    refine ⟨fuel + 1, { left with
      regions := bubbleSort (fun r => r.start.toNat) (left.regions ++ [region]) }, ?_, right⟩
    rw [mregmapAddReg_inserts fixed (mregmapFixOverlaps_sized sized fixed), if_pos more]

theorem SplitAt.insertable_iff (at_ : SplitAt region r front rest)
    (place : map.regions = front ++ r :: rest) :
    Insertable region map ↔ r.start = 0 ∧ map.regions.length + 1 < map.regionsCapacity := by
  have member : r ∈ map.regions := by simp [place]
  constructor
  · intro insertable
    exact ⟨((at_.removable_iff place).mp insertable.toRemovable).1,
      insertable.parts r member at_.first at_.last⟩
  · rintro ⟨zero, more⟩
    exact ⟨(at_.removable_iff place).mpr ⟨zero, by omega⟩, fun _ _ _ _ => more, .inl (by omega)⟩

theorem SplitAt.adds_iff (at_ : SplitAt region r front rest) (valid : map.Valid)
    (some_ : 0 < region.size.toNat) (place : map.regions = front ++ r :: rest) :
    (∃ fuel left, mregmapFixOverlaps mem fuel region 0 map = .ok left ∧
        left.regions.length < left.regionsCapacity ∧ AddsExactly region map.regions
          (bubbleSort (fun r => r.start.toNat) (left.regions ++ [region]))) ↔
      Insertable region map := by
  rw [at_.insertable_iff place]
  have ordered := valid.ordered
  rw [place] at ordered
  have length : map.regions.length = front.length + rest.length + 1 := by
    simp [place, Nat.add_assoc]
  have sorted : ∀ tail, tail = rest ∨ tail = region.upperPart r :: rest →
      (front ++ region.lowerPart r :: tail).Pairwise fun r q => r.start.toNat ≤ q.start.toNat := by
    intro tail left
    rw [← at_.lower_sorted left]
    exact bubbleSort_sorted
  constructor
  · rintro ⟨fuel, left, run, more, adds⟩
    rcases at_.run_cases mem fuel valid.toSized place with
      ⟨-, stops⟩ | ⟨full, faults | fails⟩ | ⟨-, done⟩ | ⟨-, enough, done⟩
    · cases stops.symm.trans run
    · cases faults.symm.trans run
    · cases fails.symm.trans run
      simp at more
      omega
    · cases done.symm.trans run
      rw [sort_adds_iff some_ at_.regionEnds (sorted rest (.inl rfl)), place] at adds
      exact absurd adds at_.upper_needed
    · cases done.symm.trans run
      rw [sort_adds_iff some_ at_.regionEnds (sorted _ (.inr rfl)), place,
        at_.parts_exact_iff ordered enough] at adds
      simp at more
      exact ⟨adds, by omega⟩
  · rintro ⟨zero, more⟩
    obtain ⟨enough, fuel, done⟩ := at_.run_parts mem valid.toSized place zero (by omega)
    refine ⟨fuel, _, done, ?_, ?_⟩
    · simp
      omega
    · rw [sort_adds_iff some_ at_.regionEnds (sorted _ (.inr rfl)), place]
      exact (at_.parts_exact_iff ordered enough).mpr zero

theorem unsplit_adds_iff (valid : map.Valid) (regionEnds : region.finish < 2 ^ 64)
    (some_ : 0 < region.size.toNat)
    (whole : ∀ r ∈ map.regions, ¬(r.start.toNat < region.start.toNat ∧ region.finish < r.finish)) :
    (∃ fuel left, mregmapFixOverlaps mem fuel region 0 map = .ok left ∧
        left.regions.length < left.regionsCapacity ∧ AddsExactly region map.regions
          (bubbleSort (fun r => r.start.toNat) (left.regions ++ [region]))) ↔
      Insertable region map := by
  have unsplit : ∀ r ∈ map.regions, Unsplit region r := fun r member =>
    ⟨valid.ends r member, valid.some_ member, fun split =>
      whole r member ((splits_iff regionEnds (valid.ends r member)).mp split)⟩
  have runs := fun fuel => mregmapFixOverlaps_whole mem fuel
    valid.toSized.held fun r member => (unsplit r member).whole
  have sorted := (sweep_sorted regionEnds unsplit (ordered_before valid.ordered)).1
  have exact_ := sweep_exact_iff regionEnds unsplit valid.ordered
  have fits := @sort_adds_iff region _ map.regions some_ regionEnds sorted
  rcases sweep_length regionEnds unsplit with ⟨short, shorter⟩
  have capacity := valid.room
  have room : (region.sweep map.regions).length < map.regionsCapacity ↔
      map.regions.length < map.regionsCapacity ∨
        ∃ r ∈ map.regions, region.start.toNat ≤ r.start.toNat ∧ r.finish ≤ region.finish := by
    rw [← shorter]
    omega
  constructor
  · rintro ⟨fuel, left, run, more, adds⟩
    rcases runs fuel with done | ⟨-, stops⟩
    · cases done.symm.trans run
      have both := exact_.mp (fits.mp adds)
      exact ⟨⟨fun r member low high => absurd ⟨low, high⟩ (whole r member), both.1, both.2⟩,
        fun r member low high => absurd ⟨low, high⟩ (whole r member), room.mp more⟩
    · cases stops.symm.trans run
  · intro insertable
    rcases runs (map.regions.length + 1) with done | ⟨few, -⟩
    · exact ⟨_, _, done, room.mpr insertable.room,
        fits.mpr (exact_.mpr ⟨insertable.cuts, insertable.chain⟩)⟩
    · omega

end

/-- `mregmap_add_reg` adds the region and nothing else changes if and only if it is insertable. -/
theorem mregmapAddReg_exact_iff {map : MemoryRegionMap} (valid : map.Valid) {region : MemoryRegion}
    (some_ : 0 < region.size.toNat) (ends : region.finish < 2 ^ 64) (mem : Nat → Bool) :
    (∃ fuel after, mregmapAddReg mem fuel region map = .ok (true, after) ∧
      AddsExactly region map.regions after.regions) ↔ Insertable region map := by
  rw [mregmapAddReg_adds_iff valid.toSized]
  by_cases split : ∃ r ∈ map.regions, r.start.toNat < region.start.toNat ∧ region.finish < r.finish
  · rcases split with ⟨r, member, first, last⟩
    rcases List.append_of_mem member with ⟨front, rest, place⟩
    exact (valid.splitAt place first last).adds_iff valid some_ place
  · exact unsplit_adds_iff valid ends some_ fun r member both => split ⟨r, member, both⟩

/-- A page in front of the memory is added. -/
theorem mregmapAddReg_exact_iff_page : ∃ fuel after,
    mregmapAddReg (fun _ => true) fuel ⟨0xff000, 0x1000, 3⟩ twoMebibytes = .ok (true, after) ∧
      AddsExactly ⟨0xff000, 0x1000, 3⟩ twoMebibytes.regions after.regions := by
  refine (mregmapAddReg_exact_iff twoMebibytes_valid (by decide) (by decide) _).mpr
    ⟨⟨fun r member first => ?_, fun r member => ?_, .singleton _⟩, fun r member first => ?_,
      .inl (by decide)⟩
  · cases List.mem_singleton.mp member
    exact absurd first (by decide)
  · cases List.mem_singleton.mp member
    exact ⟨fun first => absurd first (by decide), fun _ meets => absurd meets (by decide)⟩
  · cases List.mem_singleton.mp member
    exact absurd first (by decide)

/-- A page in the middle of the memory is added, and all that is behind it is lost. -/
theorem mregmapAddReg_loses : twoMebibytes.Valid ∧ ∃ after,
    mregmapAddReg (fun _ => true) 10 ⟨0x200000, 0x1000, 3⟩ twoMebibytes = .ok (true, after) ∧
      ¬AddsExactly ⟨0x200000, 0x1000, 3⟩ twoMebibytes.regions after.regions := by
  refine ⟨twoMebibytes_valid, ⟨[⟨0x100000, 0x100000, 7⟩, ⟨0x200000, 0x1000, 3⟩], 16, 320⟩, by decide,
    fun adds => ?_⟩
  have covered := (adds.others 0x201000 7 (by decide)).mpr
    ⟨_, List.mem_cons_self, by unfold Span.Holds; decide, rfl⟩
  rcases covered with ⟨s, member, holds, -⟩
  unfold Span.Holds at holds
  rcases List.mem_cons.mp member with rfl | member
  · exact absurd holds (by decide)
  · cases List.mem_singleton.mp member
    exact absurd holds (by decide)

end Dxgmx
