import Mathlib.Data.Nat.Basic
import Dxgmx.Mem.MregmapSweep
import Dxgmx.Utils.Bitwise

open Library

namespace Dxgmx

/-- The mask is an `int`, which is sign-extended. -/
def mregAlignedStart (alignment : BitVec 16) (r : MemoryRegion) : BitVec 64 :=
  let mask : BitVec 32 := alignment.setWidth 32 - 1
  (r.start + mask.signExtend 64) &&& (~~~mask).signExtend 64

/-- The loop of `mregmap_align_regs`. It ends with the first region that is removed. -/
def mregmapAlignFrom (alignment : BitVec 16) :
    (left : Nat) → (i : Nat) → MemoryRegionMap → Exec MemoryRegionMap
  | 0, _, map => .ok map
  | left + 1, i, map => do
    let tmp ← map.load i
    let start := mregAlignedStart alignment tmp
    let shrunk := mregShrink (start - tmp.start) tmp
    if shrunk.1 = 1 then do
      let removed ← mregmapRmRegionAtIndex i map
      pure removed.2
    else do
      let map ← map.store i { shrunk.2 with start := start }
      mregmapAlignFrom alignment left (i + 1) map

def mregmapAlignRegs (alignment : BitVec 16) (map : MemoryRegionMap) : Exec (Bool × MemoryRegionMap) :=
  if bwIsPowerOfTwo (alignment.setWidth 64) then do
    let map ← mregmapAlignFrom alignment map.regions.length 0 map
    pure (true, map)
  else .ok (false, map)

/-- The least multiple of `a` that is not below `n`. -/
def roundedUp (a n : Nat) : Nat := (n + (a - 1)) / a * a

section

variable {a n : Nat}

theorem roundedUp_bounds (some_ : 0 < a) : n ≤ roundedUp a n ∧ roundedUp a n < n + a := by
  unfold roundedUp
  have whole := Nat.div_add_mod (n + (a - 1)) a
  have small := Nat.mod_lt (n + (a - 1)) some_
  rw [Nat.mul_comm] at whole
  omega

theorem roundedUp_dvd : a ∣ roundedUp a n := Nat.dvd_mul_left a _

theorem roundedUp_multiple (some_ : 0 < a) (multiple : a ∣ n) : roundedUp a n = n := by
  rcases multiple with ⟨k, rfl⟩
  unfold roundedUp
  rw [Nat.mul_add_div some_, Nat.div_eq_of_lt (by omega), Nat.add_zero, Nat.mul_comm]

end

theorem and_high_toNat {e : Nat} {x mask : BitVec 64} (high : ∀ i < 64, mask.getLsbD i = decide (e ≤ i)) :
    (x &&& mask).toNat = x.toNat / 2 ^ e * 2 ^ e := by
  have shifts : x &&& mask = (x >>> e) <<< e := by
    apply BitVec.eq_of_getLsbD_eq
    intro i small
    rw [BitVec.getLsbD_and, high i small, BitVec.getLsbD_shiftLeft, BitVec.getLsbD_ushiftRight]
    by_cases above : e ≤ i
    · simp [small, above, Nat.not_lt_of_le above]
    · simp [above, Nat.lt_of_not_le above]
  have bound : x.toNat / 2 ^ e * 2 ^ e ≤ x.toNat := Nat.div_mul_le_self _ _
  rw [shifts, BitVec.toNat_shiftLeft, BitVec.toNat_ushiftRight, Nat.shiftRight_eq_div_pow,
    Nat.shiftLeft_eq, Nat.mod_eq_of_lt (bound.trans_lt x.isLt)]

theorem mask_getLsbD {e : Nat} {mask : BitVec 32} (value : mask.toNat = 2 ^ e - 1) (i : Nat) :
    mask.getLsbD i = decide (i < e) := by
  rw [← BitVec.testBit_toNat, value, Nat.testBit_two_pow_sub_one]

section

variable {alignment : BitVec 16} {r : MemoryRegion}

theorem mregAlignedStart_toNat (power : bwIsPowerOfTwo (alignment.setWidth 64))
    (low : r.start.toNat < 2 ^ 64 - alignment.toNat) :
    (mregAlignedStart alignment r).toNat = roundedUp alignment.toNat r.start.toNat := by
  rcases bwIsPowerOfTwo_iff.mp power with ⟨e, value⟩
  have width : (alignment.setWidth 64).toNat = alignment.toNat :=
    BitVec.toNat_setWidth_of_le (by decide)
  rw [width] at value
  have small := alignment.isLt
  have some_ := Nat.two_pow_pos e
  have few : e < 16 := by
    rw [value] at small
    exact (Nat.pow_lt_pow_iff_right (by decide)).mp small
  have mask : (alignment.setWidth 32 - 1 : BitVec 32).toNat = 2 ^ e - 1 := by
    rw [BitVec.toNat_sub, BitVec.toNat_setWidth_of_le (by decide)]
    show (2 ^ 32 - 1 + alignment.toNat) % 2 ^ 32 = _
    omega
  have bits := mask_getLsbD mask
  have positive : (alignment.setWidth 32 - 1 : BitVec 32).msb = false := by
    rw [BitVec.msb_eq_getLsbD_last, bits]
    exact decide_eq_false (by omega)
  have sum : (r.start + (alignment.setWidth 32 - 1 : BitVec 32).signExtend 64).toNat =
      r.start.toNat + (alignment.toNat - 1) := by
    rw [BitVec.signExtend_eq_setWidth_of_msb_false positive, BitVec.toNat_add,
      BitVec.toNat_setWidth_of_le (by decide), mask, ← value, Nat.mod_eq_of_lt (by omega)]
  unfold mregAlignedStart
  dsimp only
  rw [and_high_toNat (e := e), sum, value]
  · rfl
  · intro i below
    rw [BitVec.getLsbD_signExtend, BitVec.getLsbD_not, bits, BitVec.msb_not, positive]
    grind

/-- No address of the region is behind its start rounded up. -/
def MemoryRegion.Vanishes (alignment : BitVec 16) (r : MemoryRegion) : Prop :=
  r.finish ≤ roundedUp alignment.toNat r.start.toNat

instance vanishes_decidable : Decidable (r.Vanishes alignment) := inferInstanceAs (Decidable (_ ≤ _))

/-- What the loop makes of a region that stays. -/
def MemoryRegion.moved (alignment : BitVec 16) (r : MemoryRegion) : MemoryRegion :=
  { r with start := mregAlignedStart alignment r, size := r.size - (mregAlignedStart alignment r - r.start) }

/-- What the loop leaves. Nothing behind a removed region is looked at. -/
def alignAll (alignment : BitVec 16) : List MemoryRegion → List MemoryRegion
  | [] => []
  | r :: rest => if r.Vanishes alignment then rest else r.moved alignment :: alignAll alignment rest

variable (power : bwIsPowerOfTwo (alignment.setWidth 64))

include power

theorem alignment_pos : 0 < alignment.toNat := by
  rcases bwIsPowerOfTwo_iff.mp power with ⟨e, value⟩
  rw [BitVec.toNat_setWidth_of_le (by decide)] at value
  rw [value]
  exact Nat.two_pow_pos e

theorem aligned_shrink (low : r.start.toNat < 2 ^ 64 - alignment.toNat) :
    (mregAlignedStart alignment r - r.start).toNat =
      roundedUp alignment.toNat r.start.toNat - r.start.toNat := by
  have start := mregAlignedStart_toNat power low
  have bounds := @roundedUp_bounds alignment.toNat r.start.toNat (alignment_pos power)
  rw [BitVec.toNat_sub_of_le (by rw [BitVec.le_def]; omega), start]

theorem moved_span (low : r.start.toNat < 2 ^ 64 - alignment.toNat) (stays : ¬r.Vanishes alignment) :
    (r.moved alignment).start.toNat = roundedUp alignment.toNat r.start.toNat ∧
      (r.moved alignment).finish = r.finish := by
  have start := mregAlignedStart_toNat power low
  have shrink := aligned_shrink power low
  have bounds := @roundedUp_bounds alignment.toNat r.start.toNat (alignment_pos power)
  have whole : r.finish = r.start.toNat + r.size.toNat := rfl
  unfold MemoryRegion.Vanishes at stays
  refine ⟨start, ?_⟩
  show (mregAlignedStart alignment r).toNat + (r.size - (mregAlignedStart alignment r - r.start)).toNat = _
  rw [BitVec.toNat_sub_of_le (by rw [BitVec.le_def]; omega), start, shrink]
  omega

theorem aligned_shrinks (low : r.start.toNat < 2 ^ 64 - alignment.toNat) :
    mregShrink (mregAlignedStart alignment r - r.start) r =
      if r.Vanishes alignment then (1, r)
      else (0, { r with size := r.size - (mregAlignedStart alignment r - r.start) }) := by
  have shrink := aligned_shrink power low
  have bounds := @roundedUp_bounds alignment.toNat r.start.toNat (alignment_pos power)
  have whole : r.finish = r.start.toNat + r.size.toNat := rfl
  unfold mregShrink MemoryRegion.Vanishes
  simp only [BitVec.le_def, shrink]
  congr 1
  rw [eq_iff_iff]
  omega

theorem mregmapAlignFrom_spec {map : MemoryRegionMap} {front rest : List MemoryRegion} (held : map.Held)
    (place : map.regions = front ++ rest)
    (low : ∀ r ∈ rest, r.start.toNat < 2 ^ 64 - alignment.toNat) :
    mregmapAlignFrom alignment rest.length front.length map =
      .ok { map with regions := front ++ alignAll alignment rest } := by
  induction rest generalizing front map with
  | nil =>
    rw [List.append_nil] at place
    rw [List.length_nil, mregmapAlignFrom, alignAll, List.append_nil, ← place]
  | cons r rest ih =>
    rw [List.length_cons, mregmapAlignFrom, load_front held place, Exec.ok_bind, alignAll]
    dsimp only
    rw [aligned_shrinks power (low r List.mem_cons_self)]
    have length := congrArg List.length place
    rw [List.length_append, List.length_cons] at length
    by_cases gone : r.Vanishes alignment
    · rw [if_pos gone, if_pos gone, if_pos rfl, rmRegion_front held place]
      rfl
    · rw [if_neg gone, if_neg gone, if_neg (show ¬(0 : Int) = 1 by decide), store_front held place,
        Exec.ok_bind]
      have next := @ih { map with regions := front ++ [r.moved alignment] ++ rest }
        (front ++ [r.moved alignment]) (held.shrink (by simp; omega)) rfl
        fun q member => low q (List.mem_cons_of_mem _ member)
      rw [List.length_append, List.length_singleton, List.append_assoc, List.append_assoc] at next
      exact next

end

/-- Every region starts at a multiple of `alignment` and is not empty, and an address is covered if a
    region covered it whose start rounded up is not above it. -/
structure AlignsExactly (alignment : BitVec 16) (before after : List MemoryRegion) : Prop where
  aligned : ∀ r ∈ after, alignment.toNat ∣ r.start.toNat ∧ 0 < r.size.toNat
  covers : ∀ x : BitVec 64, (∃ r ∈ after, r.span.Holds x.toNat) ↔
    ∃ r ∈ before, r.span.Holds x.toNat ∧ roundedUp alignment.toNat r.start.toNat ≤ x.toNat

/-- Behind a region that vanishes every region is aligned. -/
def AlignedBehind (alignment : BitVec 16) (regions : List MemoryRegion) : Prop :=
  regions.Pairwise fun r q => r.Vanishes alignment → alignment.toNat ∣ q.start.toNat

section

variable {alignment : BitVec 16} {r : MemoryRegion} {regions : List MemoryRegion}
  (power : bwIsPowerOfTwo (alignment.setWidth 64))
  (low : ∀ r ∈ regions, r.start.toNat < 2 ^ 64 - alignment.toNat)
  (some_ : ∀ r ∈ regions, 0 < r.size.toNat)

include power low some_

theorem alignAll_exact (behind : AlignedBehind alignment regions) :
    AlignsExactly alignment regions (alignAll alignment regions) := by
  have positive := alignment_pos power
  induction regions with
  | nil => exact ⟨nofun, by simp [alignAll]⟩
  | cons r rest ih =>
    have first := low r List.mem_cons_self
    have later := fun q (member : q ∈ rest) => low q (List.mem_cons_of_mem _ member)
    have others := fun q (member : q ∈ rest) => some_ q (List.mem_cons_of_mem _ member)
    rw [alignAll]
    by_cases gone : r.Vanishes alignment
    · rw [if_pos gone]
      have aligned := fun q (member : q ∈ rest) => List.rel_of_pairwise_cons behind member gone
      refine ⟨fun q member => ⟨aligned q member, others q member⟩, fun x => ?_⟩
      rw [List.exists_mem_cons_iff]
      constructor
      · rintro ⟨q, member, holds⟩
        refine .inr ⟨q, member, holds, ?_⟩
        rw [roundedUp_multiple positive (aligned q member)]
        exact holds.1
      · rintro (⟨holds, above⟩ | ⟨q, member, holds, -⟩)
        · exact absurd holds.2 (Nat.not_lt_of_le (gone.trans above))
        · exact ⟨q, member, holds⟩
    · rw [if_neg gone]
      rcases ih later others behind.tail with ⟨aligned, covers⟩
      rcases moved_span power first gone with ⟨start, finish⟩
      have bounds := @roundedUp_bounds alignment.toNat r.start.toNat positive
      have wide : (r.moved alignment).finish =
          (r.moved alignment).start.toNat + (r.moved alignment).size.toNat := rfl
      unfold MemoryRegion.Vanishes at gone
      refine ⟨List.forall_mem_cons.mpr ⟨⟨?_, by omega⟩, aligned⟩, fun x => ?_⟩
      · rw [start]
        exact roundedUp_dvd
      · rw [List.exists_mem_cons_iff, List.exists_mem_cons_iff, covers]
        refine or_congr_left ?_
        show ((r.moved alignment).start.toNat ≤ x.toNat ∧ x.toNat < (r.moved alignment).finish) ↔
          (r.start.toNat ≤ x.toNat ∧ x.toNat < r.finish) ∧ _
        rw [start, finish]
        omega

end

theorem alignAll_behind {alignment : BitVec 16} {regions : List MemoryRegion}
    (aligned : ∀ r ∈ alignAll alignment regions, alignment.toNat ∣ r.start.toNat) :
    AlignedBehind alignment regions := by
  induction regions with
  | nil => exact .nil
  | cons r rest ih =>
    rw [alignAll] at aligned
    by_cases gone : r.Vanishes alignment
    · rw [if_pos gone] at aligned
      exact .cons (fun q member _ => aligned q member)
        (List.pairwise_of_forall_mem_list fun _ _ q member _ => aligned q member)
    · rw [if_neg gone, List.forall_mem_cons] at aligned
      exact .cons (fun _ _ vanishes => absurd vanishes gone) (ih aligned.2)

/-- `mregmap_align_regs` aligns the regions if and only if all of them behind one that vanishes are
    aligned already. -/
theorem mregmapAlignRegs_exact_iff {alignment : BitVec 16} {map : MemoryRegionMap} (held : map.Held)
    (power : bwIsPowerOfTwo (alignment.setWidth 64))
    (low : ∀ r ∈ map.regions, r.start.toNat < 2 ^ 64 - alignment.toNat)
    (some_ : ∀ r ∈ map.regions, 0 < r.size.toNat) :
    (∃ after, mregmapAlignRegs alignment map = .ok (true, after) ∧
      AlignsExactly alignment map.regions after.regions) ↔ AlignedBehind alignment map.regions := by
  have run := mregmapAlignFrom_spec power held (List.nil_append _).symm low
  rw [List.length_nil, List.nil_append] at run
  unfold mregmapAlignRegs
  rw [if_pos power, run]
  constructor
  · rintro ⟨after, done, exact_⟩
    cases done
    exact alignAll_behind fun r member => (exact_.aligned r member).1
  · intro behind
    exact ⟨_, rfl, alignAll_exact power low some_ behind⟩

/-- Two regions that are aligned to pages, one of which vanishes. -/
theorem mregmapAlignRegs_exact_iff_pages : ∃ after,
    mregmapAlignRegs 4096 ⟨[⟨0x800, 0x2000, 7⟩, ⟨0x3800, 0x100, 7⟩, ⟨0x4000, 0x1000, 7⟩], 16, 320⟩ =
        .ok (true, after) ∧
      AlignsExactly 4096 [⟨0x800, 0x2000, 7⟩, ⟨0x3800, 0x100, 7⟩, ⟨0x4000, 0x1000, 7⟩] after.regions := by
  refine (mregmapAlignRegs_exact_iff (by unfold MemoryRegionMap.Held; decide) (by decide)
    (by decide) (by decide)).mpr ?_
  unfold AlignedBehind
  decide

/-- A region that vanishes ends the loop, and the one behind it is not aligned. -/
theorem mregmapAlignRegs_stops :
    let regions : List MemoryRegion := [⟨0x100800, 0x100, 7⟩, ⟨0x101800, 0x2000, 7⟩]
    Ordered (regions.map MemoryRegion.span) ∧ ∃ after,
      mregmapAlignRegs 4096 ⟨regions, 16, 320⟩ = .ok (true, after) ∧
        ¬AlignsExactly 4096 regions after.regions := by
  refine ⟨?_, ⟨[⟨0x101800, 0x2000, 7⟩], 16, 320⟩, by decide, fun exact_ => ?_⟩
  · rw [ordered_iff]
    refine ⟨fun s member => ?_, List.pairwise_pair.mpr (by decide)⟩
    rcases List.mem_pair.mp member with rfl | rfl
    · decide
    · decide
  · have aligned := (exact_.aligned _ List.mem_cons_self).1
    revert aligned
    decide

end Dxgmx
