import Dxgmx.Mem.GallocatorBits

open Library

namespace Dxgmx

open AllocationCtx

/-- Where a pool lies. -/
structure AllocationCtx.Placed (p : AllocationCtx) : Prop extends p.Sized where
  chunksize : p.chunksize = 32 ∨ p.chunksize = 64 ∨ p.chunksize = 128
  aligned : p.chunksize ∣ p.poolstart
  above : 0 < p.poolstart
  below : p.poolstart + p.poolchunks * p.chunksize ≤ 2 ^ 32

section

variable {p : AllocationCtx} (mem : Nat → Byte) {e : Nat}

theorem AllocationCtx.Placed.chunksize_pow (placed : p.Placed) : ∃ c, p.chunksize = 2 ^ c := by
  rcases placed.chunksize with size | size | size
  · exact ⟨5, size⟩
  · exact ⟨6, size⟩
  · exact ⟨7, size⟩

/-- Either alignments do not matter, or aligned addresses are a number of chunks apart. -/
theorem AllocationCtx.Placed.alignment_cases (placed : p.Placed) (e : Nat) :
    2 ^ e ∣ p.chunksize ∨ p.chunksize ∣ 2 ^ e := by
  obtain ⟨c, size⟩ := placed.chunksize_pow
  rw [size]
  rcases Nat.le_total e c with low | high
  · exact .inl (pow_dvd_pow 2 low)
  · exact .inr (pow_dvd_pow 2 high)

theorem AllocationCtx.Placed.step_dvd (placed : p.Placed) (e : Nat) :
    2 ^ e ∣ ceilDiv (2 ^ e) p.chunksize * p.chunksize := by
  rcases placed.alignment_cases e with divides | ⟨q, whole⟩
  · exact Dvd.dvd.mul_left divides _
  · have positive := placed.positive
    have count : ceilDiv (2 ^ e) p.chunksize = q := by
      unfold ceilDiv
      rw [whole, show p.chunksize * q + p.chunksize - 1 = p.chunksize - 1 + p.chunksize * q by omega,
        Nat.add_mul_div_left _ _ positive, Nat.div_eq_of_lt (by omega), Nat.zero_add]
    rw [count, whole, Nat.mul_comm]

theorem AllocationCtx.Placed.step_pos (placed : p.Placed) (e : Nat) : 0 < ceilDiv (2 ^ e) p.chunksize := by
  have positive := placed.positive
  have pow := Nat.two_pow_pos e
  exact Nat.div_pos (by omega) positive

/-- The address of chunk `k` is a multiple of the alignment. -/
def AlignedAt (p : AllocationCtx) (e k : Nat) : Prop := 2 ^ e ∣ p.poolstart + k * p.chunksize

theorem AlignedAt.step (placed : p.Placed) {k : Nat} (aligned : AlignedAt p e k) :
    AlignedAt p e (k + ceilDiv (2 ^ e) p.chunksize) := by
  unfold AlignedAt
  rw [Nat.add_mul, ← Nat.add_assoc]
  exact Nat.dvd_add aligned (placed.step_dvd e)

/-- What the search for a start comes to: nothing, or an aligned chunk that is free like the one
    before it. -/
def StartFound (p : AllocationCtx) (mem : Nat → Byte) (e k : Nat)
    (result : Bool × AllocationCtx) : Prop :=
  result.1 = true → ∃ k', k ≤ k' + 1 ∧ result.2 = p.chunk (k' + 1) ∧ k' + 1 < p.poolchunks ∧
    bitAt mem p.bitmapstart k' = false ∧ bitAt mem p.bitmapstart (k' + 1) = false ∧
      AlignedAt p e (k' + 1)

theorem gallocatorFindStartLoop_spec (placed : p.Placed) (fuel : Nat) {k : Nat}
    (enough : 8 * p.bitmapsize < fuel + k) (some_ : 0 < fuel)
    (aligned : k < p.poolchunks → AlignedAt p e k) :
    ∃ result, gallocatorFindStartLoop mem (2 ^ e) fuel (p.chunk k) = .ok result ∧
      StartFound p mem e k result := by
  induction fuel generalizing k with
  | zero => omega
  | succ fuel ih =>
    unfold gallocatorFindStartLoop
    by_cases within : (p.chunk k).byte < (p.chunk k).bitmapsize ∧ (p.chunk k).InsidePool
    · rw [if_pos within]
      have covered : k / 8 < p.bitmapsize := within.1
      have inside := (chunk_insidePool placed.toSized (by omega)).mp within.2
      have aligned := aligned inside
      have step := placed.step_pos e
      -- the loop goes on by a step that keeps the address aligned
      obtain ⟨result, done, found⟩ := ih (k := k + ceilDiv (2 ^ e) p.chunksize) (by omega) (by omega)
        fun _ => aligned.step placed
      have next : gallocatorFindStartLoop mem (2 ^ e) fuel
          ((p.chunk k).advance (ceilDiv (2 ^ e) (p.chunk k).chunksize)) = .ok result := by
        rw [chunk_advance]
        exact done
      have later : StartFound p mem e k result := by
        intro yes
        obtain ⟨k', after, rest⟩ := found yes
        exact ⟨k', by omega, rest⟩
      cases k with
      | zero =>
        rw [chunk_previous_zero]
        exact ⟨result, next, later⟩
      | succ k =>
        rw [chunk_previous]
        dsimp only
        by_cases free : (p.chunk (k + 1)).checkBit mem = false ∧ (p.chunk k).checkBit mem = false
        · rw [if_pos free]
          exact ⟨_, rfl, fun _ => ⟨k, le_refl _, rfl, inside, free.2, free.1, aligned⟩⟩
        · rw [if_neg free]
          exact ⟨result, next, later⟩
    · rw [if_neg within]
      exact ⟨_, rfl, nofun⟩

theorem alignUp_toNat {n : Nat} (small : n < 2 ^ 32) (low : e < 32) :
    (bytesAlignUp64 (BitVec.ofNat 64 n) (BitVec.ofNat 64 (2 ^ e))).toNat =
      (n + 2 ^ e - 1) / 2 ^ e * 2 ^ e := by
  have pow : 2 ^ e < 2 ^ 32 := Nat.pow_lt_pow_right (by decide) low
  have positive := Nat.two_pow_pos e
  rw [bytesAlignUp64_toNat]
  · simp only [BitVec.toNat_ofNat]
    rw [Nat.mod_eq_of_lt (by omega), Nat.mod_eq_of_lt (by omega)]
  · rw [BitVec.toNat_ofNat, Nat.mod_eq_of_lt (by omega)]
    exact positive
  · simp only [BitVec.toNat_ofNat]
    rw [Nat.mod_eq_of_lt (by omega), Nat.mod_eq_of_lt (by omega)]
    omega

theorem roundUp_bounds (n : Nat) {m : Nat} (positive : 0 < m) :
    n ≤ (n + m - 1) / m * m ∧ (n + m - 1) / m * m < n + m := by
  have split := Nat.div_add_mod (n + m - 1) m
  have small := Nat.mod_lt (n + m - 1) positive
  rw [Nat.mul_comm] at split
  omega

theorem roundUp_le (n : Nat) {m bound : Nat} (whole : m ∣ bound) (positive : 0 < m)
    (below : n ≤ bound) : (n + m - 1) / m * m ≤ bound := by
  obtain ⟨q, rfl⟩ := whole
  have quotient : (n + m - 1) / m < q + 1 := by
    rw [Nat.div_lt_iff_lt_mul positive, Nat.add_mul, Nat.mul_comm q m]
    omega
  rw [Nat.mul_comm m q]
  exact Nat.mul_le_mul_right m (Nat.le_of_lt_succ quotient)

theorem chunk_inj {k l : Nat} (same : p.chunk k = p.chunk l) : k = l := by
  have byte := congrArg AllocationCtx.byte same
  have bit := congrArg AllocationCtx.bit same
  unfold chunk at byte bit
  dsimp only at byte bit
  omega

/-- The chunk that the aligned address falls on; past the end of the address space it is behind the
    end of the pool. -/
theorem atAddr_roundUp (placed : p.Placed) {k : Nat} (low : e < 32)
    (short : p.poolstart + k * p.chunksize < 2 ^ 32)
    (unaligned : ¬ 2 ^ e ∣ p.poolstart + k * p.chunksize) :
    ∃ k', k ≤ k' ∧ (k' < p.poolchunks → AlignedAt p e k') ∧
      (p.chunk k).atAddr ((p.poolstart + k * p.chunksize + 2 ^ e - 1) / 2 ^ e * 2 ^ e % 2 ^ 32) =
        p.chunk k' := by
  have below := placed.below
  have above := placed.above
  have positive := placed.positive
  have powPositive := Nat.two_pow_pos e
  have bounds := roundUp_bounds (p.poolstart + k * p.chunksize) powPositive
  have room := roundUp_le (p.poolstart + k * p.chunksize) (pow_dvd_pow 2 (Nat.le_of_lt low))
    powPositive (Nat.le_of_lt short)
  have multiple : 2 ^ e ∣ (p.poolstart + k * p.chunksize + 2 ^ e - 1) / 2 ^ e * 2 ^ e :=
    Dvd.intro_left _ rfl
  have coarse : p.chunksize ∣ 2 ^ e := by
    rcases placed.alignment_cases e with fine | coarse
    · refine absurd (Nat.dvd_add (fine.trans placed.aligned) ?_) unaligned
      exact Dvd.dvd.mul_left fine k
    · exact coarse
  rw [chunk_atAddr]
  generalize (p.poolstart + k * p.chunksize + 2 ^ e - 1) / 2 ^ e * 2 ^ e = rounded
    at bounds room multiple
  refine ⟨_, ?_, ?_, rfl⟩
  · rw [Nat.le_div_iff_mul_le positive]
    rcases Nat.lt_or_eq_of_le room with less | rfl
    · rw [Nat.mod_eq_of_lt less]
      omega
    · rw [Nat.mod_self, Nat.zero_add, Nat.mod_eq_of_lt (by omega)]
      omega
  · intro inside
    rcases Nat.lt_or_eq_of_le room with less | rfl
    · have offset : (rounded % 2 ^ 32 + 2 ^ 32 - p.poolstart) % 2 ^ 32 = rounded - p.poolstart := by
        rw [Nat.mod_eq_of_lt less]
        omega
      have whole : p.chunksize ∣ rounded - p.poolstart :=
        Nat.dvd_sub (coarse.trans multiple) placed.aligned
      unfold AlignedAt
      rw [offset, Nat.div_mul_cancel whole]
      rw [Nat.add_sub_cancel' (by omega)]
      exact multiple
    · -- the last multiple of the alignment is the end of the address space
      rw [Nat.mod_self, Nat.zero_add, Nat.mod_eq_of_lt (by omega),
        Nat.div_lt_iff_lt_mul positive] at inside
      omega

theorem atAddr_least (placed : p.Placed) {k k' j : Nat}
    (same : (p.chunk k).atAddr ((p.poolstart + k * p.chunksize + 2 ^ e - 1) / 2 ^ e * 2 ^ e %
      2 ^ 32) = p.chunk k')
    (there : AlignedAt p e j) (after : k ≤ j) (inside : j < p.poolchunks) : k' ≤ j := by
  have below := placed.below
  have positive := placed.positive
  have powPositive := Nat.two_pow_pos e
  have bounds := roundUp_bounds (p.poolstart + k * p.chunksize) powPositive
  have reach := Nat.mul_le_mul_right p.chunksize after
  have reach' := Nat.mul_lt_mul_of_pos_right inside positive
  have least := roundUp_le (p.poolstart + k * p.chunksize) there powPositive (by omega)
  rw [chunk_atAddr] at same
  rw [← chunk_inj same, ← Nat.lt_succ_iff, Nat.div_lt_iff_lt_mul positive, Nat.succ_mul]
  generalize (p.poolstart + k * p.chunksize + 2 ^ e - 1) / 2 ^ e * 2 ^ e = rounded
    at bounds least
  have offset : (rounded % 2 ^ 32 + 2 ^ 32 - p.poolstart) % 2 ^ 32 = rounded - p.poolstart := by
    rw [Nat.mod_eq_of_lt (show rounded < 2 ^ 32 by omega)]
    omega
  rw [offset]
  omega

theorem StartFound.mono {k k' : Nat} {result : Bool × AllocationCtx} (later : k ≤ k')
    (found : StartFound p mem e k' result) : StartFound p mem e k result := by
  intro yes
  obtain ⟨l, after, rest⟩ := found yes
  exact ⟨l, by omega, rest⟩

/-- The search starts at the first aligned chunk from `k` on, or behind the pool. -/
theorem gallocatorFindStartAligned_loop (placed : p.Placed) {k : Nat} (low : e < 32)
    (within : k ≤ p.poolchunks) :
    ∃ k', k ≤ k' ∧ (k' < p.poolchunks → AlignedAt p e k') ∧
      (∀ j, AlignedAt p e j → k ≤ j → j < p.poolchunks → k' ≤ j) ∧
      gallocatorFindStartAligned mem (2 ^ e) (p.chunk k) =
        gallocatorFindStartLoop mem (2 ^ e) (8 * p.bitmapsize + 1) (p.chunk k') := by
  have below := placed.below
  have above := placed.above
  have positive := placed.positive
  have reach := Nat.mul_le_mul_right p.chunksize within
  have powPositive := Nat.two_pow_pos e
  have place : (p.poolstart + (p.chunk k).toOffset) % 2 ^ 32 =
      (p.poolstart + k * p.chunksize) % 2 ^ 32 := by
    rw [chunk_toOffset, Nat.add_mod_mod]
  unfold gallocatorFindStartAligned
  change ∃ k', _ ∧ _ ∧ _ ∧
    (if (p.poolstart + (p.chunk k).toOffset) % 2 ^ 32 % 2 ^ e = 0 then _ else _) = _
  rw [place]
  have short : k < p.poolchunks → p.poolstart + k * p.chunksize < 2 ^ 32 := by
    intro inside
    have next := Nat.mul_lt_mul_of_pos_right inside positive
    omega
  by_cases aligned : (p.poolstart + k * p.chunksize) % 2 ^ 32 % 2 ^ e = 0
  · refine ⟨k, le_rfl, fun inside => ?_, fun j _ after _ => after, if_pos aligned⟩
    rw [Nat.mod_eq_of_lt (short inside)] at aligned
    exact Nat.dvd_of_mod_eq_zero aligned
  · have short : p.poolstart + k * p.chunksize < 2 ^ 32 := by
      by_contra end_
      rw [show p.poolstart + k * p.chunksize = 2 ^ 32 by omega, Nat.mod_self] at aligned
      exact aligned (Nat.zero_mod _)
    have unaligned := aligned
    rw [Nat.mod_eq_of_lt short] at unaligned
    obtain ⟨k', later, start, at_⟩ := atAddr_roundUp placed low short
      (unaligned ∘ Nat.mod_eq_zero_of_dvd)
    have address : ((p.chunk k).poolstart + (p.chunk k).toOffset) % 2 ^ 32 =
        p.poolstart + k * p.chunksize := place.trans (Nat.mod_eq_of_lt short)
    refine ⟨k', later, start, fun j there after inside => atAddr_least placed at_ there after inside,
      (if_neg aligned).trans ?_⟩
    dsimp only
    rw [address, alignUp_toNat short low, at_]
    have whole : (p.poolstart + k * p.chunksize + 2 ^ e - 1) / 2 ^ e * 2 ^ e % 2 ^ 32 % 2 ^ e = 0 := by
      rw [Nat.mod_mod_of_dvd _ (pow_dvd_pow 2 (Nat.le_of_lt low)), Nat.mul_mod_left]
    rw [assert, if_pos whole]
    rfl

theorem gallocatorFindStartAligned_spec (placed : p.Placed) {k : Nat} (low : e < 32)
    (within : k ≤ p.poolchunks) :
    ∃ result, gallocatorFindStartAligned mem (2 ^ e) (p.chunk k) = .ok result ∧
      StartFound p mem e k result := by
  obtain ⟨k', later, aligned, -, same⟩ := gallocatorFindStartAligned_loop mem placed low within
  obtain ⟨result, done, found⟩ := gallocatorFindStartLoop_spec mem placed (8 * p.bitmapsize + 1)
    (by omega) (Nat.succ_pos _) aligned
  exact ⟨result, same.trans done, found.mono mem later⟩

/-- A place for `needed` chunks with a free chunk before them. -/
def Fits (p : AllocationCtx) (mem : Nat → Byte) (e needed k : Nat) : Prop :=
  bitAt mem p.bitmapstart k = false ∧ p.FreeRun mem (k + 1) needed ∧ AlignedAt p e (k + 1)

theorem gallocatorSearch_spec (placed : p.Placed) (low : e < 32) (needed : Nat) (fuel : Nat) {k : Nat}
    (within : k ≤ p.poolchunks) (enough : p.poolchunks < fuel + k) :
    ∃ result, gallocatorSearch mem (2 ^ e) needed fuel (p.chunk k) = .ok result ∧
      ∀ alloc, result = some alloc → ∃ k', alloc = p.chunk (k' + 1) ∧ Fits p mem e needed k' := by
  induction fuel generalizing k with
  | zero => omega
  | succ fuel ih =>
    obtain ⟨⟨found, alloc⟩, start, valid⟩ := gallocatorFindStartAligned_spec mem placed low within
    unfold gallocatorSearch
    rw [start]
    change ∃ result, (if found = false then _ else _) = _ ∧ _
    by_cases none : found = false
    · rw [if_pos none]
      exact ⟨_, rfl, nofun⟩
    · rw [if_neg none]
      obtain ⟨k', later, same, inside, before, clear, aligned⟩ := valid (by simpa using none)
      dsimp only at same
      subst same
      by_cases one : needed = 1
      · rw [if_pos one, one]
        refine ⟨_, rfl, fun alloc same => ⟨k', (Option.some.inj same).symm, before, ?_, aligned⟩⟩
        exact freeRun_one inside clear
      · rw [if_neg one]
        obtain ⟨m, count, run, some_⟩ :=
          gallocatorHasNContiguousBits_spec mem needed placed.toSized inside clear
        rw [count]
        change ∃ result, (if m = needed then _ else _) = _ ∧ _
        by_cases all : m = needed
        · rw [if_pos all]
          subst all
          exact ⟨_, rfl, fun alloc same => ⟨k', (Option.some.inj same).symm, before, run, aligned⟩⟩
        · rw [if_neg all, chunk_advance]
          have bound := run.1
          exact ih (by omega) (by omega)

end

end Dxgmx
