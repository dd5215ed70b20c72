import Dxgmx.Mem.GallocatorHeap

open Library

namespace Dxgmx

open AllocationCtx Allocation

def Allocation.metadata (a : Allocation) : GAllocationMeta where
  signature := allocationSignature
  size := a.size
  chunksize := chunksizeFor a.size
  alignment := a.alignment

theorem Allocation.metadata_signature (a : Allocation) :
    a.metadata.signature = allocationSignature := rfl

/-- Outside of the bitmap of its pool and of its chunk range nothing is changed. -/
def ChangesOnly (p : AllocationCtx) (a : Allocation) (mem mem' : Nat → Byte) : Prop :=
  ∀ x, x < p.bitmapstart ∨ p.bitmapstart + p.bitmapsize ≤ x → x < a.low ∨ a.high ≤ x →
    mem' x = mem x

theorem bitAt_congr {mem mem' : Nat → Byte} {start i : Nat}
    (same : mem' (start + i / 8) = mem (start + i / 8)) : bitAt mem' start i = bitAt mem start i :=
  congrArg (BitVec.getLsbD · (i % 8)) same

theorem memsetZero_outside (mem : Nat → Byte) {addr n x : Nat} (outside : x < addr ∨ addr + n ≤ x) :
    memsetZero mem addr n x = mem x :=
  if_neg (by omega)

/-- The chunks of `a`, the one of its metadata first, were free and are marked, and its metadata is
    stored. -/
structure Allocates (m : GAllocatorHeapMeta) (a : Allocation) (p : AllocationCtx) (k : Nat)
    (mem mem' : Nat → Byte) : Prop where
  lives : Lives m a p k
  free : ∀ i, k ≤ i → i < k + 1 + a.chunks → bitAt mem p.bitmapstart i = false
  marks : ∃ marked, p.Put true mem k (a.chunks + 1) marked ∧
    mem' = a.metadata.store (a.addr - allocationMetaSize) marked

/-- The chunks of `a` are unmarked, and its metadata and payload are zeroed. -/
structure Frees (m : GAllocatorHeapMeta) (a : Allocation) (p : AllocationCtx) (k : Nat)
    (mem mem' : Nat → Byte) : Prop where
  lives : Lives m a p k
  clears : ∃ cleared, p.Put false mem k (a.chunks + 1) cleared ∧
    mem' = memsetZero cleared (a.addr - allocationMetaSize) (a.size + allocationMetaSize)

section

variable {heap : Heap} {m : GAllocatorHeapMeta} {mem mem' : Nat → Byte} {a : Allocation}
  {p : AllocationCtx} {k : Nat}

theorem Allocates.changesOnly (allocates : Allocates m a p k mem mem') :
    ChangesOnly p a mem mem' := by
  rcases allocates.marks with ⟨marked, put, rfl⟩
  have range := allocates.lives.range
  intro x outBitmap outRange
  rw [GAllocationMeta.store_outside _ _ (by unfold allocationMetaSize; omega)]
  exact put.2 x outBitmap

theorem Frees.changesOnly (frees : Frees m a p k mem mem') : ChangesOnly p a mem mem' := by
  rcases frees.clears with ⟨cleared, put, rfl⟩
  have range := frees.lives.range
  intro x outBitmap outRange
  rw [memsetZero_outside _ (by unfold allocationMetaSize; omega)]
  exact put.2 x outBitmap

theorem Allocates.bitAt (layout : HeapLayout heap m) (allocates : Allocates m a p k mem mem')
    {i : Nat} (inside : i < 8 * p.bitmapsize) :
    Dxgmx.bitAt mem' p.bitmapstart i =
      if k ≤ i ∧ i < k + 1 + a.chunks then true else Dxgmx.bitAt mem p.bitmapstart i := by
  rcases allocates.marks with ⟨marked, put, rfl⟩
  have bounds := pool_bounds layout allocates.lives.pool
  have range := allocates.lives.range
  have same : Dxgmx.bitAt (a.metadata.store (a.addr - allocationMetaSize) marked) p.bitmapstart i =
      Dxgmx.bitAt marked p.bitmapstart i := by
    apply bitAt_congr
    apply GAllocationMeta.store_outside
    unfold allocationMetaSize
    omega
  rw [same, put.1]
  split_ifs <;> first | rfl | omega

theorem Frees.bitAt (layout : HeapLayout heap m) (frees : Frees m a p k mem mem')
    {i : Nat} (inside : i < 8 * p.bitmapsize) :
    Dxgmx.bitAt mem' p.bitmapstart i =
      if k ≤ i ∧ i < k + 1 + a.chunks then false else Dxgmx.bitAt mem p.bitmapstart i := by
  rcases frees.clears with ⟨cleared, put, rfl⟩
  have bounds := pool_bounds layout frees.lives.pool
  have range := frees.lives.range
  have same : Dxgmx.bitAt (memsetZero cleared (a.addr - allocationMetaSize)
      (a.size + allocationMetaSize)) p.bitmapstart i = Dxgmx.bitAt cleared p.bitmapstart i := by
    apply bitAt_congr
    apply memsetZero_outside
    unfold allocationMetaSize
    omega
  rw [same, put.1]
  split_ifs <;> first | rfl | omega

theorem Allocates.described (allocates : Allocates m a p k mem mem')
    (small : a.size < 2 ^ 32 ∧ a.alignment < 2 ^ 32) :
    GAllocationMeta.load mem' (a.addr - allocationMetaSize) = a.metadata := by
  rcases allocates.marks with ⟨marked, -, rfl⟩
  have chunksize := chunksizeFor_bounds a.size
  apply GAllocationMeta.load_store
  refine ⟨?_, small.1, ?_, small.2⟩
  · show allocationSignature < 2 ^ 32
    decide
  · show chunksizeFor a.size < 2 ^ 32
    omega

/-- A call answers null and changes nothing, or it allocates. -/
theorem gallocatorAllocAligned_cases (layout : HeapLayout heap m)
    (loaded : GAllocatorHeapMeta.load mem heap.vaddr.toNat = m) {size e : Nat}
    (some_ : 0 < size) (low : e < 32) :
    gallocatorAllocAligned size (2 ^ e) heap mem = .ok (none, mem) ∨
      ∃ addr p k mem', gallocatorAllocAligned size (2 ^ e) heap mem = .ok (some addr, mem') ∧
        Allocates m ⟨addr, size, 2 ^ e⟩ p k mem mem' := by
  obtain ⟨p, here⟩ := pool_chunksizeFor m size
  have placed := layout.placed _ _ here
  have chunksize := pool_chunksize here
  have needed : 0 < ceilDiv size p.chunksize :=
    Nat.div_pos (by omega) placed.positive
  obtain ⟨found, searched, fits⟩ := gallocatorSearch_spec mem placed low
    (ceilDiv size p.chunksize) (p.poolchunks + 1) (k := 0) (Nat.zero_le _) (by omega)
  rw [pool_chunk here] at searched
  have unfolded : gallocatorAllocAligned size (2 ^ e) heap mem =
      gallocatorDoAllocAligned size (2 ^ e) m mem := by
    unfold gallocatorAllocAligned
    dsimp only
    rw [loaded, if_neg (not_not.mpr layout.signature)]
  rw [unfolded]
  unfold gallocatorDoAllocAligned
  rw [here]
  dsimp only
  cases found with
  | none =>
    left
    rw [searched]
    rfl
  | some alloc =>
    obtain ⟨k, rfl, clear, run, aligned⟩ := fits alloc rfl
    rcases run.1 with zero | bound
    · omega
    have small_ := placed.pool_small
    have below := placed.below
    rcases Nat.lt_or_eq_of_le bound with inside | last
    · obtain ⟨marked, call, put⟩ :=
        gallocatorBitmapPutBits_spec true placed.toSized mem needed inside
      have reach := Nat.mul_lt_mul_of_pos_right (show k + 1 < p.poolchunks by omega) placed.positive
      have place : p.poolstart + (p.chunk (k + 1)).toOffset = p.poolstart + (k + 1) * p.chunksize := by
        rw [chunk_toOffset, Nat.mod_eq_of_lt (by omega)]
      have chunks : (⟨p.poolstart + (k + 1) * p.chunksize, size, 2 ^ e⟩ : Allocation).chunks =
          ceilDiv size p.chunksize := by
        rw [chunksize]
        rfl
      have lives : Lives m ⟨p.poolstart + (k + 1) * p.chunksize, size, 2 ^ e⟩ p k :=
        ⟨here, by rw [chunks]; exact inside, rfl, aligned, some_⟩
      refine .inr ⟨p.poolstart + (k + 1) * p.chunksize, p, k, _, ?_,
        lives, fun i first second => ?_, marked, by rw [chunks]; exact put, rfl⟩
      · rw [Exec.bind_ok]
        refine ⟨_, searched, ?_⟩
        dsimp only
        rw [Exec.bind_ok]
        refine ⟨_, call, ?_⟩
        dsimp only
        rw [if_neg (by decide)]
        show pure (some (p.poolstart + (p.chunk (k + 1)).toOffset), GAllocationMeta.store
          ⟨allocationSignature, size, p.chunksize, 2 ^ e⟩
            (p.poolstart + (p.chunk (k + 1)).toOffset - allocationMetaSize) marked) = _
        rw [place, chunksize]
        rfl
      · rw [chunks] at second
        rcases Nat.lt_or_eq_of_le first with after | rfl
        · have free := run.2 (i - (k + 1)) (by omega)
          rw [show k + 1 + (i - (k + 1)) = i by omega] at free
          exact free
        · exact clear
    · -- a run up to the last chunk is turned down
      have turned := gallocatorBitmapPutBits_end true placed.toSized mem (by omega) last
      left
      rw [Exec.bind_ok]
      refine ⟨_, searched, ?_⟩
      dsimp only
      rw [Exec.bind_ok]
      exact ⟨_, turned, rfl⟩

theorem Allocation.Lives.atAddr (lives : Lives m a p k) (placed : p.Placed) :
    p.atAddr a.addr = p.chunk (k + 1) := by
  have small := placed.pool_small
  have reach := Nat.mul_lt_mul_of_pos_right
    (show k + 1 < p.poolchunks by have := lives.inside; omega) placed.positive
  have offset : (p.poolstart + (k + 1) * p.chunksize + 2 ^ 32 - p.poolstart) % 2 ^ 32 =
      (k + 1) * p.chunksize := by
    generalize (k + 1) * p.chunksize = place at reach
    omega
  rw [← pool_chunk lives.pool, chunk_atAddr, chunk_chunk, lives.addr, offset,
    Nat.mul_div_cancel _ placed.positive]

theorem gallocatorFree_frees (layout : HeapLayout heap m)
    (loaded : GAllocatorHeapMeta.load mem heap.vaddr.toNat = m) (lives : Lives m a p k)
    (described : GAllocationMeta.load mem (a.addr - allocationMetaSize) = a.metadata) :
    ∃ mem', gallocatorFree a.addr heap mem = .ok mem' ∧ Frees m a p k mem mem' := by
  have placed := layout.placed _ _ lives.pool
  have range := lives.range
  have some_ : 0 < a.chunks :=
    Nat.div_pos (by have := lives.some_; omega) (by omega)
  obtain ⟨cleared, call, put⟩ :=
    gallocatorBitmapPutBits_spec false placed.toSized mem some_ lives.inside
  have place := lives.atAddr placed
  refine ⟨_, ?_, lives, cleared, put, rfl⟩
  unfold gallocatorFree
  show (if (GAllocatorHeapMeta.load mem heap.vaddr.toNat).signature ≠ heapSignature then _ else _) = _
  rw [loaded, if_neg (not_not.mpr layout.signature)]
  show (if (GAllocationMeta.load mem (a.addr - allocationMetaSize)).signature ≠ allocationSignature
    then _ else _) = _
  rw [described, if_neg (not_not.mpr a.metadata_signature)]
  rw [show m.pool a.metadata.chunksize = some p from lives.pool]
  show (gallocatorBitmapClearBits (p.atAddr a.addr) a.chunks mem >>= _) = _
  rw [Exec.bind_ok, place]
  refine ⟨_, call, ?_⟩
  show (assert ((0 : Int) = 0) >>= _) = _
  rw [assert_bind_ok]
  exact ⟨rfl, rfl⟩

end

end Dxgmx
