import Dxgmx.Mem.Gallocator

open Library

namespace Dxgmx

open AllocationCtx

/-- Bit `k` of the bitmap at `start`. -/
def bitAt (mem : Nat → Byte) (start k : Nat) : Bool := (mem (start + k / 8)).getLsbD (k % 8)

namespace AllocationCtx

/-- The context of chunk `k` of the same pool. -/
def chunk (p : AllocationCtx) (k : Nat) : AllocationCtx := { p with byte := k / 8, bit := k % 8 }

/-- The offsets of the chunks that have a bit do not wrap. -/
structure Sized (p : AllocationCtx) : Prop where
  positive : 0 < p.chunksize
  covered : p.poolchunks ≤ 8 * p.bitmapsize
  small : 8 * p.bitmapsize * p.chunksize < 2 ^ 32

variable {p : AllocationCtx}

@[simp] theorem chunk_chunk (p : AllocationCtx) (k l : Nat) : (p.chunk k).chunk l = p.chunk l := rfl

theorem chunk_bit (p : AllocationCtx) (k : Nat) : (p.chunk k).bit = k % 8 := rfl

theorem chunk_advance (p : AllocationCtx) (k n : Nat) :
    (p.chunk k).advance n = p.chunk (k + n) := by
  unfold advance chunk
  dsimp only
  split
  · congr 1 <;> omega
  · congr 1 <;> omega

theorem chunk_next {k : Nat} (low : k % 8 ≠ 7) :
    { p.chunk k with bit := k % 8 + 1 } = p.chunk (k + 1) := by
  unfold chunk
  dsimp only
  congr 1 <;> omega

theorem chunk_wrap {k : Nat} (high : k % 8 = 7) :
    ({ { p.chunk k with bit := 0 } with byte := k / 8 + 1 } : AllocationCtx) = p.chunk (k + 1) := by
  unfold chunk
  dsimp only
  congr 1 <;> omega

theorem chunk_previous (p : AllocationCtx) (k : Nat) :
    (p.chunk (k + 1)).previous = some (p.chunk k) := by
  unfold previous chunk
  dsimp only
  split
  · rw [if_neg (by omega)]
    congr 2 <;> omega
  · congr 2 <;> omega

theorem chunk_previous_zero (p : AllocationCtx) : (p.chunk 0).previous = none := rfl

theorem chunk_toOffset (p : AllocationCtx) (k : Nat) :
    (p.chunk k).toOffset = k * p.chunksize % 2 ^ 32 := by
  unfold toOffset chunk
  dsimp only
  rw [← Nat.add_mul, Nat.mul_comm (k / 8), Nat.div_add_mod]

theorem chunk_atAddr (p : AllocationCtx) (k addr : Nat) :
    (p.chunk k).atAddr addr = p.chunk ((addr + 2 ^ 32 - p.poolstart) % 2 ^ 32 / p.chunksize) := by
  unfold atAddr chunk
  dsimp only
  congr 1
  omega

theorem Sized.pool_small (sized : p.Sized) : p.poolchunks * p.chunksize < 2 ^ 32 :=
  lt_of_le_of_lt (Nat.mul_le_mul_right _ sized.covered) sized.small

theorem chunk_insidePool (sized : p.Sized) {k : Nat} (within : k ≤ 8 * p.bitmapsize) :
    (p.chunk k).InsidePool ↔ k < p.poolchunks := by
  have small := lt_of_le_of_lt (Nat.mul_le_mul_right p.chunksize within) sized.small
  unfold InsidePool
  rw [chunk_toOffset, Nat.mod_eq_of_lt small]
  change k * p.chunksize < p.poolchunks * p.chunksize % 2 ^ 32 ↔ _
  rw [Nat.mod_eq_of_lt sized.pool_small]
  exact Nat.mul_lt_mul_right sized.positive

/-- The chunks `[k, k + n)` are in the pool and free. -/
def FreeRun (p : AllocationCtx) (mem : Nat → Byte) (k n : Nat) : Prop :=
  (n = 0 ∨ k + n ≤ p.poolchunks) ∧ ∀ i < n, bitAt mem p.bitmapstart (k + i) = false

theorem FreeRun.append {mem : Nat → Byte} {k n m : Nat} (first : p.FreeRun mem k n)
    (second : p.FreeRun mem (k + n) m) : p.FreeRun mem k (n + m) := by
  refine ⟨?_, fun i inside => ?_⟩
  · have one := first.1
    have two := second.1
    omega
  · by_cases low : i < n
    · exact first.2 i low
    · have high := second.2 (i - n) (by omega)
      rw [show k + n + (i - n) = k + i by omega] at high
      exact high

theorem freeRun_zero (p : AllocationCtx) (mem : Nat → Byte) (k : Nat) : p.FreeRun mem k 0 :=
  ⟨.inl rfl, nofun⟩

theorem freeRun_one {mem : Nat → Byte} {k : Nat} (inside : k < p.poolchunks)
    (clear : bitAt mem p.bitmapstart k = false) : p.FreeRun mem k 1 := by
  refine ⟨.inr inside, fun i first => ?_⟩
  rw [Nat.lt_one_iff.mp first]
  exact clear

theorem FreeRun.nothing {mem : Nat → Byte} {k n : Nat} (run : p.FreeRun mem k n)
    (beyond : p.poolchunks ≤ k) : n = 0 := by
  have bound := run.1
  omega

/-- `mem'` is `mem` with the bits `[k, k + n)` of the bitmap put to `value`. -/
def Put (p : AllocationCtx) (value : Bool) (mem : Nat → Byte) (k n : Nat) (mem' : Nat → Byte) :
    Prop :=
  (∀ i, bitAt mem' p.bitmapstart i =
      if k ≤ i ∧ i < k + n then value else bitAt mem p.bitmapstart i) ∧
    ∀ a, a < p.bitmapstart ∨ p.bitmapstart + p.bitmapsize ≤ a → mem' a = mem a

theorem Put.append {value : Bool} {mem mem' mem'' : Nat → Byte} {k n m : Nat}
    (first : p.Put value mem k n mem') (second : p.Put value mem' (k + n) m mem'') :
    p.Put value mem k (n + m) mem'' := by
  refine ⟨fun i => ?_, fun a outside => (second.2 a outside).trans (first.2 a outside)⟩
  rw [second.1, first.1]
  split_ifs <;> first | rfl | omega

theorem putBit_getLsbD (value : Bool) (byte : Byte) (bit : Nat) {j : Nat} (inside : j < 8) :
    (putBit value byte bit).getLsbD j = if j = bit then value else byte.getLsbD j := by
  have mask : (1#8 <<< bit).getLsbD j = decide (j = bit) := by
    simp only [BitVec.getLsbD_shiftLeft, BitVec.getLsbD_one]
    grind
  unfold putBit
  cases value with
  | true =>
    rw [if_pos rfl, BitVec.getLsbD_or, mask]
    by_cases here : j = bit <;> simp [here]
  | false =>
    rw [if_neg nofun, BitVec.getLsbD_and, BitVec.getLsbD_not, mask]
    by_cases here : j = bit <;> simp [here, inside]

theorem putChunk_put (value : Bool) {k : Nat} (covered : k / 8 < p.bitmapsize)
    (mem : Nat → Byte) : p.Put value mem k 1 (putChunk value (p.chunk k) mem) := by
  unfold putChunk chunk
  refine ⟨fun i => ?_, fun a outside => ?_⟩
  · unfold bitAt
    dsimp only
    by_cases here : i / 8 = k / 8
    · rw [here, Function.update_self, putBit_getLsbD _ _ _ (by omega)]
      split_ifs <;> first | rfl | omega
    · rw [Function.update_of_ne (by omega), if_neg (by omega)]
  · dsimp only
    exact Function.update_of_ne (by omega) _ _

end AllocationCtx

section Contiguous

variable {p : AllocationCtx} (mem : Nat → Byte) (n : Nat)

/-- What counting from chunk `k` on may come to. -/
def Counted (p : AllocationCtx) (mem : Nat → Byte) (k m : Nat) : Prop :=
  p.FreeRun mem k m ∧ (k < p.poolchunks → bitAt mem p.bitmapstart k = false → 0 < m)

variable {mem} in
theorem Counted.cons {k m : Nat} (inside : k < p.poolchunks)
    (clear : bitAt mem p.bitmapstart k = false) (rest : Counted p mem (k + 1) m) :
    Counted p mem k (1 + m) :=
  ⟨(freeRun_one inside clear).append rest.1, fun _ _ => by omega⟩

/-- One byte of the count: the run goes on at the next byte or ends at the end of the pool. -/
theorem contiguousInByte_spec (sized : p.Sized) (left : Nat) {k : Nat} (foundbits : Nat)
    (room : 8 - k % 8 ≤ left) (covered : k / 8 < p.bitmapsize) :
    match contiguousInByte n (mem (p.bitmapstart + k / 8)) left (p.chunk k) foundbits with
    | .error found => ∃ m, found = foundbits + m ∧ Counted p mem k m
    | .ok (alloc, found) => ∃ m k', found = foundbits + m ∧ Counted p mem k m ∧
        { alloc with byte := alloc.byte + 1 } = p.chunk k' ∧ k' / 8 = k / 8 + 1 ∧
          (k' = k + m ∨ p.poolchunks ≤ k') := by
  induction left generalizing k foundbits with
  | zero => omega
  | succ left ih =>
    unfold contiguousInByte
    by_cases inside : k < p.poolchunks
    · rw [if_pos ((chunk_insidePool sized (by omega)).mpr inside)]
      by_cases set : (mem (p.bitmapstart + k / 8)).getLsbD (p.chunk k).bit = true
      · rw [if_pos set]
        refine ⟨0, rfl, freeRun_zero p mem k, fun _ clear => ?_⟩
        exact absurd (set.symm.trans clear) nofun
      · rw [if_neg set]
        have clear : bitAt mem p.bitmapstart k = false := Bool.eq_false_iff.mpr set
        have one : Counted p mem k 1 := ⟨freeRun_one inside clear, fun _ _ => Nat.one_pos⟩
        by_cases enough : foundbits + 1 = n
        · rw [if_pos enough]
          exact ⟨1, rfl, one⟩
        · rw [if_neg enough, chunk_bit]
          by_cases high : k % 8 = 7
          · rw [if_pos high]
            exact ⟨1, k + 1, rfl, one, chunk_wrap high, by omega, .inl rfl⟩
          · have same : (k + 1) / 8 = k / 8 := by omega
            have rest := ih (foundbits + 1) (k := k + 1) (by omega) (by omega)
            rw [if_neg high, chunk_next high]
            rw [same] at rest
            split
            · rename_i found reached
              rw [reached] at rest
              obtain ⟨m, total, counted⟩ := rest
              exact ⟨1 + m, by omega, counted.cons inside clear⟩
            · rename_i alloc found reached
              rw [reached] at rest
              obtain ⟨m, k', total, counted, next, following, place⟩ := rest
              exact ⟨1 + m, k', by omega, counted.cons inside clear, next, following, by omega⟩
    · rw [if_neg (inside ∘ (chunk_insidePool sized (by omega)).mp)]
      refine ⟨0, k + 8, rfl, ⟨freeRun_zero p mem k, fun within => absurd within inside⟩, ?_,
        by omega, .inr (by omega)⟩
      unfold chunk
      dsimp only
      congr 1 <;> omega

theorem contiguousLoop_spec (sized : p.Sized) (left : Nat) {k : Nat} (foundbits : Nat)
    (rest : k / 8 + left = p.bitmapsize) :
    ∃ m, contiguousLoop mem n left (p.chunk k) foundbits = foundbits + m ∧ Counted p mem k m := by
  induction left generalizing k foundbits with
  | zero =>
    refine ⟨0, rfl, freeRun_zero p mem k, fun inside => ?_⟩
    have covered := sized.covered
    omega
  | succ left ih =>
    have byte := contiguousInByte_spec mem n sized 8 foundbits (k := k) (by omega) (by omega)
    unfold contiguousLoop
    change ∃ m, (match contiguousInByte n (mem (p.bitmapstart + k / 8)) 8 (p.chunk k) foundbits with
      | .error foundbits => foundbits
      | .ok (alloc, foundbits) =>
        contiguousLoop mem n left { alloc with byte := alloc.byte + 1 } foundbits) = foundbits + m ∧
          Counted p mem k m
    split
    · rename_i found reached
      rw [reached] at byte
      exact byte
    · rename_i alloc found reached
      rw [reached] at byte
      obtain ⟨m, k', rfl, counted, next, following, place⟩ := byte
      obtain ⟨m', total, more⟩ := ih (foundbits + m) (k := k') (by omega)
      rw [next, total]
      refine ⟨m + m', by omega, ?_, fun inside clear => ?_⟩
      · rcases place with rfl | beyond
        · exact counted.1.append more.1
        · rw [more.1.nothing beyond]
          exact counted.1
      · have positive := counted.2 inside clear
        omega

theorem gallocatorHasNContiguousBits_spec (sized : p.Sized) {k : Nat} (inside : k < p.poolchunks)
    (clear : bitAt mem p.bitmapstart k = false) :
    ∃ m, gallocatorHasNContiguousBits mem (p.chunk k) n = .ok m ∧ p.FreeRun mem k m ∧ 0 < m := by
  have covered := sized.covered
  have left : k / 8 + (p.bitmapsize - k / 8) = p.bitmapsize := by omega
  obtain ⟨m, total, counted⟩ := contiguousLoop_spec mem n sized _ 0 left
  have positive := counted.2 inside clear
  rw [Nat.zero_add] at total
  refine ⟨m, ?_, counted.1, positive⟩
  unfold gallocatorHasNContiguousBits
  rw [assert_bind_ok]
  refine ⟨Nat.mod_lt _ (by decide), ?_⟩
  rw [assert_bind_ok]
  refine ⟨(chunk_insidePool sized (by omega)).mpr inside, ?_⟩
  change (assert (0 < contiguousLoop mem n (p.bitmapsize - k / 8) (p.chunk k) 0) >>= fun _ =>
    pure (contiguousLoop mem n (p.bitmapsize - k / 8) (p.chunk k) 0)) = _
  rw [total, assert_bind_ok]
  exact ⟨positive, rfl⟩

end Contiguous

section Marking

variable {p : AllocationCtx} (value : Bool)

theorem putInByte_spec (sized : p.Sized) (left : Nat) {k : Nat} (bits : Nat) (mem : Nat → Byte)
    (some_ : 0 < bits) (inside : k + bits ≤ p.poolchunks) (room : 8 - k % 8 ≤ left) :
    match putInByte value left (p.chunk k) bits mem with
    | .error mem' => bits ≤ 8 - k % 8 ∧ p.Put value mem k bits mem'
    | .ok (alloc, bits', mem') => 8 - k % 8 < bits ∧ bits' = bits - (8 - k % 8) ∧
        { alloc with byte := alloc.byte + 1 } = p.chunk (k + (8 - k % 8)) ∧
          p.Put value mem k (8 - k % 8) mem' := by
  have covered := sized.covered
  induction left generalizing k bits mem with
  | zero => omega
  | succ left ih =>
    have one := putChunk_put (p := p) value (k := k) (by omega) mem
    unfold putInByte
    rw [if_pos ((chunk_insidePool sized (by omega)).mpr (by omega))]
    dsimp only
    by_cases last : bits - 1 = 0
    · rw [if_pos last]
      have only : bits = 1 := by omega
      subst only
      exact ⟨by omega, one⟩
    · rw [if_neg last, chunk_bit]
      by_cases high : k % 8 = 7
      · rw [if_pos high]
        have width : 8 - k % 8 = 1 := by omega
        rw [width]
        exact ⟨by omega, rfl, chunk_wrap high, one⟩
      · have rest := ih (k := k + 1) (bits - 1) (putChunk value (p.chunk k) mem)
          (by omega) (by omega) (by omega)
        have width : 8 - k % 8 = 1 + (8 - (k + 1) % 8) := by omega
        rw [if_neg high, chunk_next high]
        split
        · rename_i mem' reached
          rw [reached] at rest
          have all := one.append rest.2
          rw [show 1 + (bits - 1) = bits by omega] at all
          exact ⟨by omega, all⟩
        · rename_i alloc bits' mem' reached
          rw [reached] at rest
          obtain ⟨more, left, next, put⟩ := rest
          rw [width]
          rw [show k + 1 + (8 - (k + 1) % 8) = k + (1 + (8 - (k + 1) % 8)) by omega] at next
          exact ⟨by omega, by omega, next, one.append put⟩

theorem putLoop_spec (sized : p.Sized) (left : Nat) {k : Nat} (bits : Nat) (mem : Nat → Byte)
    (some_ : 0 < bits) (inside : k + bits ≤ p.poolchunks) (rest : k / 8 + left = p.bitmapsize) :
    ∃ mem', putLoop value left (p.chunk k) bits mem = .ok mem' ∧ p.Put value mem k bits mem' := by
  have covered := sized.covered
  induction left generalizing k bits mem with
  | zero => omega
  | succ left ih =>
    have byte := putInByte_spec value sized 8 bits mem some_ inside (by omega)
    unfold putLoop
    split
    · rename_i mem' reached
      rw [reached] at byte
      exact ⟨mem', rfl, byte.2⟩
    · rename_i alloc bits' mem' reached
      rw [reached] at byte
      obtain ⟨more, rfl, next, put⟩ := byte
      obtain ⟨mem'', done, later⟩ := ih (k := k + (8 - k % 8)) (bits - (8 - k % 8)) mem'
        (by omega) (by omega) (by omega)
      have all := put.append later
      rw [show 8 - k % 8 + (bits - (8 - k % 8)) = bits by omega] at all
      rw [next]
      exact ⟨mem'', done, all⟩

/-- The marks on a run that ends before the last chunk take in the chunk before it. -/
theorem gallocatorBitmapPutBits_spec (sized : p.Sized) {k bits : Nat} (mem : Nat → Byte)
    (some_ : 0 < bits) (inside : k + 1 + bits < p.poolchunks) :
    ∃ mem', gallocatorBitmapPutBits value (p.chunk (k + 1)) bits mem = .ok (0, mem') ∧
      p.Put value mem k (bits + 1) mem' := by
  have covered := sized.covered
  have before := putChunk_put (p := p) value (k := k) (by omega) mem
  obtain ⟨mem', done, put⟩ := putLoop_spec value sized (p.bitmapsize - (k + 1) / 8) bits
    (putChunk value (p.chunk k) mem) some_ (k := k + 1) (by omega) (by omega)
  have all := before.append put
  rw [Nat.add_comm 1 bits] at all
  refine ⟨mem', ?_, all⟩
  unfold gallocatorBitmapPutBits
  rw [if_neg, if_neg, chunk_previous]
  · have done : putLoop value ((p.chunk (k + 1)).bitmapsize - (p.chunk (k + 1)).byte)
      (p.chunk (k + 1)) bits (putChunk value (p.chunk k) mem) = .ok mem' := done
    dsimp only
    rw [done]
  · rw [chunk_advance, not_not, chunk_insidePool sized (by omega)]
    exact inside
  · rw [not_or, not_not, chunk_insidePool sized (by omega)]
    exact ⟨Nat.not_lt.mpr (Nat.le_of_lt_succ (Nat.mod_lt _ (by decide))), by omega⟩

/-- A run up to the end of the pool is turned down. -/
theorem gallocatorBitmapPutBits_end (sized : p.Sized) {k bits : Nat} (mem : Nat → Byte)
    (inside : k < p.poolchunks) (last : k + bits = p.poolchunks) :
    gallocatorBitmapPutBits value (p.chunk k) bits mem = .ok (-22, mem) := by
  have covered := sized.covered
  unfold gallocatorBitmapPutBits
  rw [if_neg, if_pos]
  · rw [chunk_advance, chunk_insidePool sized (by omega)]
    omega
  · rw [not_or, not_not, chunk_insidePool sized (by omega)]
    exact ⟨Nat.not_lt.mpr (Nat.le_of_lt_succ (Nat.mod_lt _ (by decide))), inside⟩

end Marking

end Dxgmx
