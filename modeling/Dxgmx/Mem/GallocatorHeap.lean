import Dxgmx.Library.Runs
import Dxgmx.Mem.GallocatorSearch

open Library

namespace Dxgmx

open AllocationCtx

theorem GAllocationMeta.load_store (allocmeta : GAllocationMeta) (addr : Nat) (mem : Nat → Byte)
    (small : allocmeta.signature < 2 ^ 32 ∧ allocmeta.size < 2 ^ 32 ∧
      allocmeta.chunksize < 2 ^ 32 ∧ allocmeta.alignment < 2 ^ 32) :
    GAllocationMeta.load (allocmeta.store addr mem) addr = allocmeta := by
  have field := readU32_writeU32s mem addr
    [allocmeta.signature, allocmeta.size, allocmeta.chunksize, allocmeta.alignment] (by simpa using small)
  unfold GAllocationMeta.load GAllocationMeta.store
  congr 1
  · exact field 0 (by simp)
  · exact field 1 (by simp)
  · exact field 2 (by simp)
  · exact field 3 (by simp)

theorem GAllocationMeta.store_outside (allocmeta : GAllocationMeta) {addr a : Nat}
    (mem : Nat → Byte) (outside : a < addr ∨ addr + 16 ≤ a) : allocmeta.store addr mem a = mem a :=
  writeU32s_outside _ _ outside

theorem GAllocationMeta.load_congr {mem mem' : Nat → Byte} {addr : Nat}
    (same : ∀ a, addr ≤ a → a < addr + 16 → mem a = mem' a) :
    GAllocationMeta.load mem addr = GAllocationMeta.load mem' addr := by
  have field (off : Nat) (inside : off + 4 ≤ 16) :
      readU32 mem (addr + off) = readU32 mem' (addr + off) :=
    readU32_congr fun a low high => same a (by omega) (by omega)
  unfold GAllocationMeta.load
  congr 1
  · exact field 0 (by decide)
  · exact field 4 (by decide)
  · exact field 8 (by decide)
  · exact field 12 (by decide)

theorem GAllocatorHeapMeta.load_store (heapMeta : GAllocatorHeapMeta) (addr : Nat)
    (mem : Nat → Byte)
    (small : ∀ value ∈ [heapMeta.signature,
      heapMeta.loBitmap, heapMeta.loBitmapSize, heapMeta.loPool, heapMeta.loPoolchunks,
      heapMeta.midBitmap, heapMeta.midBitmapSize, heapMeta.midPool, heapMeta.midPoolchunks,
      heapMeta.hiBitmap, heapMeta.hiBitmapSize, heapMeta.hiPool, heapMeta.hiPoolchunks],
      value < 2 ^ 32) :
    GAllocatorHeapMeta.load (heapMeta.store addr mem) addr = heapMeta := by
  have field := readU32_writeU32s mem addr _ small
  unfold GAllocatorHeapMeta.load GAllocatorHeapMeta.store
  congr 1
  · exact field 0 (by simp)
  · exact field 1 (by simp)
  · exact field 2 (by simp)
  · exact field 3 (by simp)
  · exact field 4 (by simp)
  · exact field 5 (by simp)
  · exact field 6 (by simp)
  · exact field 7 (by simp)
  · exact field 8 (by simp)
  · exact field 9 (by simp)
  · exact field 10 (by simp)
  · exact field 11 (by simp)
  · exact field 12 (by simp)

theorem GAllocatorHeapMeta.store_outside (heapMeta : GAllocatorHeapMeta) {addr a : Nat}
    (mem : Nat → Byte) (outside : a < addr ∨ addr + 52 ≤ a) : heapMeta.store addr mem a = mem a :=
  writeU32s_outside _ _ outside

theorem GAllocatorHeapMeta.load_congr {mem mem' : Nat → Byte} {addr : Nat}
    (same : ∀ a, addr ≤ a → a < addr + 52 → mem a = mem' a) :
    GAllocatorHeapMeta.load mem addr = GAllocatorHeapMeta.load mem' addr := by
  have field (off : Nat) (inside : off + 4 ≤ 52) :
      readU32 mem (addr + off) = readU32 mem' (addr + off) :=
    readU32_congr fun a low high => same a (by omega) (by omega)
  unfold GAllocatorHeapMeta.load
  congr 1
  · exact field 0 (by decide)
  all_goals exact field _ (by decide)

/-- The parts of a heap in the order in which they lie. -/
structure HeapLayout (heap : Heap) (m : GAllocatorHeapMeta) : Prop where
  signature : m.signature = heapSignature
  metaEnd : heap.vaddr.toNat + 52 ≤ m.loBitmap
  loBitmap : m.loBitmap + m.loBitmapSize ≤ m.midBitmap
  midBitmap : m.midBitmap + m.midBitmapSize ≤ m.hiBitmap
  hiBitmap : m.hiBitmap + m.hiBitmapSize ≤ m.hiPool
  hiPool : m.hiPool + m.hiPoolchunks * 128 ≤ m.midPool
  midPool : m.midPool + m.midPoolchunks * 64 ≤ m.loPool
  loPool : m.loPool + m.loPoolchunks * 32 ≤ heap.vaddr.toNat + heap.pagespan.toNat * pageSize
  placed : ∀ c p, m.pool c = some p → p.Placed

section Layout

variable {heap : Heap} {m : GAllocatorHeapMeta} {c d : Nat} {p q : AllocationCtx}

theorem pool_cases (here : m.pool c = some p) :
    (c = 32 ∧ p = ⟨m.loBitmap, m.loBitmapSize, m.loPool, m.loPoolchunks, 32, 0, 0⟩) ∨
    (c = 64 ∧ p = ⟨m.midBitmap, m.midBitmapSize, m.midPool, m.midPoolchunks, 64, 0, 0⟩) ∨
    (c = 128 ∧ p = ⟨m.hiBitmap, m.hiBitmapSize, m.hiPool, m.hiPoolchunks, 128, 0, 0⟩) := by
  unfold GAllocatorHeapMeta.pool at here
  split at here
  · rename_i size
    exact .inl ⟨size, (Option.some.inj here).symm⟩
  · split at here
    · rename_i size
      exact .inr (.inl ⟨size, (Option.some.inj here).symm⟩)
    · split at here
      · rename_i size
        exact .inr (.inr ⟨size, (Option.some.inj here).symm⟩)
      · cases here

theorem pool_chunksize (here : m.pool c = some p) : p.chunksize = c := by
  rcases pool_cases here with ⟨rfl, rfl⟩ | ⟨rfl, rfl⟩ | ⟨rfl, rfl⟩ <;> rfl

theorem pool_chunk (here : m.pool c = some p) : p.chunk 0 = p := by
  rcases pool_cases here with ⟨rfl, rfl⟩ | ⟨rfl, rfl⟩ | ⟨rfl, rfl⟩ <;> rfl

theorem pool_chunksizeFor (m : GAllocatorHeapMeta) (size : Nat) :
    ∃ p, m.pool (chunksizeFor size) = some p := by
  unfold chunksizeFor GAllocatorHeapMeta.pool
  split
  · exact ⟨_, rfl⟩
  · split
    · exact ⟨_, rfl⟩
    · exact ⟨_, rfl⟩

/-- All bitmaps lie between the metadata of the heap and the pools. -/
theorem pool_bounds (layout : HeapLayout heap m) (here : m.pool c = some p) :
    heap.vaddr.toNat + 52 ≤ p.bitmapstart ∧ p.bitmapstart + p.bitmapsize ≤ m.hiPool ∧
      m.hiPool ≤ p.poolstart ∧ p.poolstart + p.poolchunks * p.chunksize ≤
        heap.vaddr.toNat + heap.pagespan.toNat * pageSize := by
  obtain ⟨-, h1, h2, h3, h4, h5, h6, h7, -⟩ := layout
  rcases pool_cases here with ⟨rfl, rfl⟩ | ⟨rfl, rfl⟩ | ⟨rfl, rfl⟩
  all_goals
    dsimp only
    omega

theorem pools_apart (layout : HeapLayout heap m) (here : m.pool c = some p)
    (there : m.pool d = some q) (different : c ≠ d) :
    (p.bitmapstart + p.bitmapsize ≤ q.bitmapstart ∨ q.bitmapstart + q.bitmapsize ≤ p.bitmapstart) ∧
      (p.poolstart + p.poolchunks * p.chunksize ≤ q.poolstart ∨
        q.poolstart + q.poolchunks * q.chunksize ≤ p.poolstart) := by
  obtain ⟨-, h1, h2, h3, h4, h5, h6, h7, -⟩ := layout
  rcases pool_cases here with ⟨rfl, rfl⟩ | ⟨rfl, rfl⟩ | ⟨rfl, rfl⟩ <;>
    rcases pool_cases there with ⟨rfl, rfl⟩ | ⟨rfl, rfl⟩ | ⟨rfl, rfl⟩
  all_goals
    dsimp only
    omega

end Layout

@[ext]
structure Allocation where
  addr : Nat
  size : Nat
  alignment : Nat
  deriving DecidableEq, Repr

namespace Allocation

/-- The data chunks. -/
def chunks (a : Allocation) : Nat := ceilDiv a.size (chunksizeFor a.size)

/-- The chunk range starts with the chunk of the metadata. -/
def low (a : Allocation) : Nat := a.addr - chunksizeFor a.size

def high (a : Allocation) : Nat := a.addr + a.chunks * chunksizeFor a.size

def Apart (a b : Allocation) : Prop := a.high ≤ b.low ∨ b.high ≤ a.low

/-- Chunk `k` of the pool is in the chunk range. -/
def Owns (a : Allocation) (p : AllocationCtx) (k : Nat) : Prop :=
  chunksizeFor a.size = p.chunksize ∧ a.low ≤ p.poolstart + k * p.chunksize ∧
    p.poolstart + k * p.chunksize < a.high

/-- The chunk of the metadata is chunk `k` of the pool, and the range ends before the last chunk. -/
structure Lives (m : GAllocatorHeapMeta) (a : Allocation) (p : AllocationCtx) (k : Nat) : Prop where
  pool : m.pool (chunksizeFor a.size) = some p
  inside : k + 1 + a.chunks < p.poolchunks
  addr : a.addr = p.poolstart + (k + 1) * p.chunksize
  aligned : a.alignment ∣ a.addr
  some_ : 0 < a.size

end Allocation

theorem chunksizeFor_bounds (size : Nat) : 32 ≤ chunksizeFor size ∧ chunksizeFor size ≤ 128 := by
  unfold chunksizeFor
  split_ifs <;> omega

theorem le_ceilDiv_mul (n : Nat) {d : Nat} (positive : 0 < d) : n ≤ ceilDiv n d * d :=
  (roundUp_bounds n positive).1

namespace Allocation

variable {heap : Heap} {m : GAllocatorHeapMeta} {a b : Allocation} {p q : AllocationCtx} {k l : Nat}

theorem Lives.chunksize (lives : Lives m a p k) : p.chunksize = chunksizeFor a.size :=
  pool_chunksize lives.pool

theorem Lives.low (lives : Lives m a p k) : a.low = p.poolstart + k * p.chunksize := by
  unfold Allocation.low
  rw [lives.addr, ← lives.chunksize, Nat.succ_mul]
  omega

theorem Lives.high (lives : Lives m a p k) :
    a.high = p.poolstart + (k + 1 + a.chunks) * p.chunksize := by
  unfold Allocation.high
  rw [lives.addr, ← lives.chunksize, Nat.add_mul _ a.chunks]
  omega

theorem Lives.high_le (lives : Lives m a p k) :
    a.high + p.chunksize ≤ p.poolstart + p.poolchunks * p.chunksize := by
  have last := Nat.mul_le_mul_right p.chunksize (Nat.succ_le_of_lt lives.inside)
  rw [Nat.succ_mul] at last
  rw [lives.high]
  omega

theorem Lives.range (lives : Lives m a p k) :
    a.low + chunksizeFor a.size = a.addr ∧ 32 ≤ chunksizeFor a.size ∧ p.poolstart ≤ a.low ∧
      a.addr + a.size ≤ a.high := by
  have size := chunksizeFor_bounds a.size
  have low := lives.low
  have cover := le_ceilDiv_mul a.size (show 0 < chunksizeFor a.size by omega)
  have addr := lives.addr
  rw [lives.chunksize] at low addr
  rw [Nat.succ_mul] at addr
  unfold Allocation.high Allocation.chunks
  omega

theorem Lives.owns (lives : Lives m a p k) (positive : 0 < p.chunksize) (i : Nat) :
    a.Owns p i ↔ k ≤ i ∧ i < k + 1 + a.chunks := by
  unfold Allocation.Owns
  rw [lives.low, lives.high, ← lives.chunksize, Nat.add_le_add_iff_left,
    Nat.add_lt_add_iff_left, Nat.mul_le_mul_right_iff positive, Nat.mul_lt_mul_right positive]
  simp

instance : Std.Symm Apart := ⟨fun _ _ apart => apart.symm⟩

/-- Two allocations of one pool are apart if no chunk is in both ranges. -/
theorem Lives.apart_of_chunks (here : Lives m a p k) (there : Lives m b p l)
    (disjoint : ∀ i, k ≤ i → i < k + 1 + a.chunks → l ≤ i → ¬ i < l + 1 + b.chunks) :
    Apart a b := by
  unfold Apart
  rw [here.low, here.high, there.low, there.high]
  have order : k + 1 + a.chunks ≤ l ∨ l + 1 + b.chunks ≤ k := by
    by_contra overlap
    rcases Nat.le_total k l with before | after
    · exact disjoint l before (by omega) (le_refl l) (by omega)
    · exact disjoint k (le_refl k) (by omega) after (by omega)
  rcases order with before | after
  · left
    exact Nat.add_le_add_left (Nat.mul_le_mul_right _ before) _
  · right
    exact Nat.add_le_add_left (Nat.mul_le_mul_right _ after) _

theorem Lives.apart_of_pools (layout : HeapLayout heap m) (here : Lives m a p k)
    (there : Lives m b q l) (different : chunksizeFor a.size ≠ chunksizeFor b.size) : Apart a b := by
  have pools := (pools_apart layout here.pool there.pool different).2
  have aRange := here.range
  have bRange := there.range
  have aHigh := here.high_le
  have bHigh := there.high_le
  unfold Apart
  omega

end Allocation

end Dxgmx
