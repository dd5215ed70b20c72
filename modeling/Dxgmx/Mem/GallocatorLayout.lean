import Dxgmx.Mem.GallocatorHeap

open Library

namespace Dxgmx

open AllocationCtx

theorem alignUp_bounds {n e : Nat} (low : e < 32) (room : n + 2 ^ e ≤ 2 ^ 32) :
    ∃ aligned, (bytesAlignUp64 (BitVec.ofNat 64 n) (BitVec.ofNat 64 (2 ^ e))).toNat % 2 ^ 32 =
      aligned ∧ n ≤ aligned ∧ aligned < n + 2 ^ e ∧ 2 ^ e ∣ aligned := by
  have positive := Nat.two_pow_pos e
  have bounds := roundUp_bounds n positive
  refine ⟨_, rfl, ?_⟩
  rw [alignUp_toNat (by omega) low, Nat.mod_eq_of_lt (by omega)]
  exact ⟨bounds.1, bounds.2, Dvd.intro_left _ rfl⟩

section Init

variable {heap : Heap} {mem : Nat → Byte}

/-- What `gallocator_init_heap` makes of a heap of `heapsize` bytes behind its metadata. -/
structure Divided (heapsize lo mid hi loChunks midChunks hiChunks : Nat) : Prop where
  bitmaps : loChunks ≤ 8 * lo ∧ midChunks ≤ 8 * mid ∧ hiChunks ≤ 8 * hi
  some_ : 0 < loChunks ∧ 0 < midChunks ∧ 0 < hiChunks
  small : 8 * lo * 32 < 2 ^ 32 ∧ 8 * mid * 64 < 2 ^ 32 ∧ 8 * hi * 128 < 2 ^ 32
  fits : lo + mid + hi + hiChunks * 128 + midChunks * 64 + loChunks * 32 ≤ heapsize

theorem ceilDiv_eight (n : Nat) : n ≤ 8 * ceilDiv n 8 ∧ 8 * ceilDiv n 8 < n + 8 := by
  unfold ceilDiv
  omega

theorem divided {heapsize : Nat} (big : 3968 ≤ heapsize) (small : heapsize < 2 ^ 32 - 128) :
    Divided heapsize (ceilDiv (heapsize / 4 / 32) 8) (ceilDiv (heapsize / 4 / 64) 8)
      (ceilDiv (heapsize / 2 / 128) 8)
      ((heapsize - (ceilDiv (heapsize / 4 / 32) 8 + ceilDiv (heapsize / 4 / 64) 8 +
        ceilDiv (heapsize / 2 / 128) 8)) / 4 / 32)
      ((heapsize - (ceilDiv (heapsize / 4 / 32) 8 + ceilDiv (heapsize / 4 / 64) 8 +
        ceilDiv (heapsize / 2 / 128) 8)) / 4 / 64)
      ((heapsize - (ceilDiv (heapsize / 4 / 32) 8 + ceilDiv (heapsize / 4 / 64) 8 +
        ceilDiv (heapsize / 2 / 128) 8)) / 2 / 128) := by
  -- the middle and the high bitmap have the same size
  have quarter : heapsize / 4 / 64 = heapsize / 2 / 128 := by omega
  rw [quarter]
  have lo := ceilDiv_eight (heapsize / 4 / 32)
  have hi := ceilDiv_eight (heapsize / 2 / 128)
  generalize ceilDiv (heapsize / 4 / 32) 8 = loSize at *
  generalize ceilDiv (heapsize / 2 / 128) 8 = hiSize at *
  have enough : 256 ≤ heapsize - (loSize + hiSize + hiSize) := by omega
  have left : heapsize - (loSize + hiSize + hiSize) + (loSize + hiSize + hiSize) = heapsize := by
    omega
  generalize heapsize - (loSize + hiSize + hiSize) = behind at *
  constructor <;> omega

/-- The metadata that `gallocator_init_heap` stores. -/
def preparedMeta (start lo mid hi loPool loChunks midPool midChunks hiPool hiChunks : Nat) :
    GAllocatorHeapMeta :=
  ⟨heapSignature, start + 128, lo, loPool, loChunks, start + 128 + lo, mid, midPool, midChunks,
    start + 128 + lo + mid, hi, hiPool, hiChunks⟩

variable {heapsize lo mid hi loChunks midChunks hiChunks : Nat}
  {hiPool midPool loPool hiLeft midLeft loLeft : Nat}

theorem gallocatorInitHeap_eq
    (size : heap.pagespan.toNat * pageSize % 2 ^ 32 - 128 = heapsize)
    (some_ : 128 < heap.pagespan.toNat * pageSize % 2 ^ 32)
    (loSize : ceilDiv (heapsize / 4 / 32) 8 = lo) (midSize : ceilDiv (heapsize / 4 / 64) 8 = mid)
    (hiSize : ceilDiv (heapsize / 2 / 128) 8 = hi)
    (loCount : (heapsize - (lo + mid + hi)) / 4 / 32 = loChunks)
    (midCount : (heapsize - (lo + mid + hi)) / 4 / 64 = midChunks)
    (hiCount : (heapsize - (lo + mid + hi)) / 2 / 128 = hiChunks)
    (hiPlace : (bytesAlignUp64 (BitVec.ofNat 64 (heap.vaddr.toNat + 128 + lo + mid + hi))
      128).toNat % 2 ^ 32 = hiPool)
    (midPlace : (bytesAlignUp64 (BitVec.ofNat 64 (heap.vaddr.toNat + 128 + lo + mid + hi +
      hiChunks * 128)) 64).toNat % 2 ^ 32 = midPool)
    (loPlace : (bytesAlignUp64 (BitVec.ofNat 64 (heap.vaddr.toNat + 128 + lo + mid + hi +
      hiChunks * 128 + midChunks * 64)) 32).toNat % 2 ^ 32 = loPool)
    (hiRest : hiChunks - (if hiPool ≠ heap.vaddr.toNat + 128 + lo + mid + hi then 1 else 0) = hiLeft)
    (midRest : midChunks - (if midPool ≠ heap.vaddr.toNat + 128 + lo + mid + hi + hiChunks * 128
      then 1 else 0) = midLeft)
    (loRest : loChunks - (if loPool ≠ heap.vaddr.toNat + 128 + lo + mid + hi + hiChunks * 128 +
      midChunks * 64 then 1 else 0) = loLeft)
    (aligned : loPool % 32 = 0 ∧ midPool % 64 = 0 ∧ hiPool % 128 = 0) :
    gallocatorInitHeap heap mem = .ok (0, (preparedMeta heap.vaddr.toNat lo mid hi loPool loLeft
      midPool midLeft hiPool hiLeft).store heap.vaddr.toNat mem) := by
  subst size
  unfold gallocatorInitHeap
  show (if heap.pagespan.toNat * pageSize % 2 ^ 32 ≤ 128 then _ else _) = _
  rw [if_neg (by omega)]
  subst loSize midSize hiSize
  subst loCount midCount hiCount
  subst hiRest midRest loRest
  subst hiPlace midPlace loPlace
  show (assert _ >>= fun _ => assert _ >>= fun _ => assert _ >>= fun _ => _) = _
  rw [assert_bind_ok]
  refine ⟨aligned.1, ?_⟩
  rw [assert_bind_ok]
  refine ⟨aligned.2.1, ?_⟩
  rw [assert_bind_ok]
  exact ⟨aligned.2.2, rfl⟩

/-- What a chunk less leaves of a pool that starts at `aligned` instead of `start`. -/
theorem shrunk_pool {start aligned chunksize chunks left : Nat} (some_ : 0 < chunks)
    (bounds : start ≤ aligned ∧ aligned < start + chunksize)
    (rest : chunks - (if aligned ≠ start then 1 else 0) = left) :
    left ≤ chunks ∧ aligned + left * chunksize ≤ start + chunks * chunksize := by
  obtain ⟨fewer, rfl⟩ := Nat.exists_eq_succ_of_ne_zero (Nat.ne_of_gt some_)
  subst rest
  rw [Nat.succ_mul]
  split_ifs with moved
  · rw [Nat.succ_sub_one]
    omega
  · rw [Nat.sub_zero, Nat.succ_mul]
    omega

theorem preparedMeta_layout (divided : Divided heapsize lo mid hi loChunks midChunks hiChunks)
    (inside : 128 + heapsize ≤ heap.pagespan.toNat * pageSize)
    (hiPlace : heap.vaddr.toNat + 128 + lo + mid + hi ≤ hiPool)
    (hiEnd : hiLeft ≤ hiChunks ∧ hiPool + hiLeft * 128 ≤
      heap.vaddr.toNat + 128 + lo + mid + hi + hiChunks * 128)
    (midPlace : heap.vaddr.toNat + 128 + lo + mid + hi + hiChunks * 128 ≤ midPool)
    (midEnd : midLeft ≤ midChunks ∧ midPool + midLeft * 64 ≤
      heap.vaddr.toNat + 128 + lo + mid + hi + hiChunks * 128 + midChunks * 64)
    (loPlace : heap.vaddr.toNat + 128 + lo + mid + hi + hiChunks * 128 + midChunks * 64 ≤ loPool)
    (loEnd : loLeft ≤ loChunks ∧ loPool + loLeft * 32 ≤
      heap.vaddr.toNat + 128 + lo + mid + hi + hiChunks * 128 + midChunks * 64 + loChunks * 32)
    (aligned : 32 ∣ loPool ∧ 64 ∣ midPool ∧ 128 ∣ hiPool) :
    HeapLayout heap (preparedMeta heap.vaddr.toNat lo mid hi loPool loLeft midPool midLeft
      hiPool hiLeft) := by
  have fits := heap.fits
  obtain ⟨⟨loBits, midBits, hiBits⟩, some_, ⟨loSmall, midSmall, hiSmall⟩, sizes⟩ := divided
  unfold preparedMeta
  refine ⟨rfl, ?_, ?_, ?_, ?_, ?_, ?_, ?_, fun c p here => ?_⟩
  iterate 7
    dsimp only
    omega
  rcases pool_cases here with ⟨-, rfl⟩ | ⟨-, rfl⟩ | ⟨-, rfl⟩
  · refine ⟨⟨Nat.zero_lt_succ 31, ?_, loSmall⟩, .inl rfl, aligned.1, ?_, ?_⟩
    all_goals
      dsimp only
      omega
  · refine ⟨⟨Nat.zero_lt_succ 63, ?_, midSmall⟩, .inr (.inl rfl), aligned.2.1, ?_, ?_⟩
    all_goals
      dsimp only
      omega
  · refine ⟨⟨Nat.zero_lt_succ 127, ?_, hiSmall⟩, .inr (.inr rfl), aligned.2.2, ?_, ?_⟩
    all_goals
      dsimp only
      omega

theorem preparedMeta_load (below : loPool < 2 ^ 32) (layout : HeapLayout heap (preparedMeta heap.vaddr.toNat lo mid hi
      loPool loLeft midPool midLeft hiPool hiLeft)) :
    GAllocatorHeapMeta.load ((preparedMeta heap.vaddr.toNat lo mid hi loPool loLeft midPool midLeft
      hiPool hiLeft).store heap.vaddr.toNat mem) heap.vaddr.toNat =
        preparedMeta heap.vaddr.toNat lo mid hi loPool loLeft midPool midLeft hiPool hiLeft := by
  have fits := heap.fits
  obtain ⟨-, h1, h2, h3, h4, h5, h6, h7, -⟩ := layout
  unfold preparedMeta at h1 h2 h3 h4 h5 h6 h7
  dsimp only at h1 h2 h3 h4 h5 h6 h7
  apply GAllocatorHeapMeta.load_store
  unfold preparedMeta
  dsimp only
  simp only [List.forall_mem_cons]
  refine ⟨by decide, ?_, ?_, ?_, ?_, ?_, ?_, ?_, ?_, ?_, ?_, ?_, ?_, nofun⟩
  all_goals omega

def u32Sub (a b : Nat) : Nat := (a + 2 ^ 32 - b) % 2 ^ 32

theorem u32Sub_of_le {a b : Nat} (le : b ≤ a) (small : a < 2 ^ 32) : u32Sub a b = a - b := by
  unfold u32Sub
  omega

/-- What `gallocator_init_heap` computes, `size_t` by `size_t`. A pool that is moved up to be aligned
    has a chunk less. -/
structure HeapSizes where
  total : Nat
  heapsize : Nat
  loBitmapSize : Nat
  midBitmapSize : Nat
  hiBitmapSize : Nat
  poolsize : Nat
  loPool : Nat
  midPool : Nat
  hiPool : Nat
  alignedLoPool : Nat
  alignedMidPool : Nat
  alignedHiPool : Nat

def heapSizes (heap : Heap) : HeapSizes :=
  let total := heap.pagespan.toNat * pageSize % 2 ^ 32
  let heapsize := u32Sub total 128
  let loBitmapSize := ceilDiv (heapsize / 4 / 32) 8
  let midBitmapSize := ceilDiv (heapsize / 4 / 64) 8
  let hiBitmapSize := ceilDiv (heapsize / 2 / 128) 8
  let poolsize := u32Sub heapsize (loBitmapSize + midBitmapSize + hiBitmapSize)
  let hiPool := heap.vaddr.toNat + 128 + loBitmapSize + midBitmapSize + hiBitmapSize
  let midPool := hiPool + poolsize / 2 / 128 * 128
  let loPool := midPool + poolsize / 4 / 64 * 64
  { total, heapsize, loBitmapSize, midBitmapSize, hiBitmapSize, poolsize, loPool, midPool, hiPool
    alignedLoPool := (bytesAlignUp64 (BitVec.ofNat 64 loPool) 32).toNat % 2 ^ 32
    alignedMidPool := (bytesAlignUp64 (BitVec.ofNat 64 midPool) 64).toNat % 2 ^ 32
    alignedHiPool := (bytesAlignUp64 (BitVec.ofNat 64 hiPool) 128).toNat % 2 ^ 32 }

namespace HeapSizes

variable (s : HeapSizes)

/-- Every subtraction of sizes or chunk counts. -/
def subtractions : List (Nat × Nat) :=
  [(s.total, 128), (s.heapsize, s.loBitmapSize + s.midBitmapSize + s.hiBitmapSize),
    (s.poolsize / 2 / 128, if s.alignedHiPool ≠ s.hiPool then 1 else 0),
    (s.poolsize / 4 / 64, if s.alignedMidPool ≠ s.midPool then 1 else 0),
    (s.poolsize / 4 / 32, if s.alignedLoPool ≠ s.loPool then 1 else 0)]

def heapMeta (start : Nat) : GAllocatorHeapMeta :=
  preparedMeta start s.loBitmapSize s.midBitmapSize s.hiBitmapSize
    s.alignedLoPool (u32Sub (s.poolsize / 4 / 32) (if s.alignedLoPool ≠ s.loPool then 1 else 0))
    s.alignedMidPool (u32Sub (s.poolsize / 4 / 64) (if s.alignedMidPool ≠ s.midPool then 1 else 0))
    s.alignedHiPool (u32Sub (s.poolsize / 2 / 128) (if s.alignedHiPool ≠ s.hiPool then 1 else 0))

end HeapSizes

theorem moved_le {chunks : Nat} (some_ : 0 < chunks) (moved : Prop) [Decidable moved] :
    (if moved then 1 else 0) ≤ chunks := by
  split <;> omega

theorem heapSizes_sizes (some_ : 0 < heap.pagespan.toNat) (whole : heap.pagespan.toNat < 2 ^ 20) :
    (heapSizes heap).total = heap.pagespan.toNat * pageSize ∧
      (heapSizes heap).heapsize = heap.pagespan.toNat * pageSize - 128 ∧
      (heapSizes heap).poolsize = (heapSizes heap).heapsize - ((heapSizes heap).loBitmapSize +
        (heapSizes heap).midBitmapSize + (heapSizes heap).hiBitmapSize) ∧
      Divided (heapSizes heap).heapsize (heapSizes heap).loBitmapSize
        (heapSizes heap).midBitmapSize (heapSizes heap).hiBitmapSize
        ((heapSizes heap).poolsize / 4 / 32) ((heapSizes heap).poolsize / 4 / 64)
        ((heapSizes heap).poolsize / 2 / 128) := by
  have total : (heapSizes heap).total = heap.pagespan.toNat * pageSize := by
    apply Nat.mod_eq_of_lt
    unfold pageSize
    omega
  have pages : 4096 ≤ heap.pagespan.toNat * pageSize ∧
      heap.pagespan.toNat * pageSize < 2 ^ 32 := by
    unfold pageSize
    omega
  have heapsize : (heapSizes heap).heapsize = heap.pagespan.toNat * pageSize - 128 := by
    change u32Sub (heapSizes heap).total 128 = _
    rw [total]
    exact u32Sub_of_le (by omega) (by omega)
  have divided : Divided (heapSizes heap).heapsize (heapSizes heap).loBitmapSize
      (heapSizes heap).midBitmapSize (heapSizes heap).hiBitmapSize _ _ _ :=
    divided (by omega) (by omega)
  have parts := divided.fits
  have poolsize : (heapSizes heap).poolsize = (heapSizes heap).heapsize -
      ((heapSizes heap).loBitmapSize + (heapSizes heap).midBitmapSize +
        (heapSizes heap).hiBitmapSize) := by
    apply u32Sub_of_le
    · change (heapSizes heap).loBitmapSize + (heapSizes heap).midBitmapSize +
        (heapSizes heap).hiBitmapSize ≤ (heapSizes heap).heapsize
      omega
    · change (heapSizes heap).heapsize < 2 ^ 32
      omega
  refine ⟨total, heapsize, poolsize, ?_⟩
  rw [poolsize]
  exact divided

/-- The metadata is stored at the start of the heap, and the parts it describes lie as laid out. -/
theorem gallocatorInitHeap_layout (some_ : 0 < heap.pagespan.toNat)
    (whole : heap.pagespan.toNat < 2 ^ 20) (mem : Nat → Byte) :
    gallocatorInitHeap heap mem = .ok (0,
        ((heapSizes heap).heapMeta heap.vaddr.toNat).store heap.vaddr.toNat mem) ∧
      HeapLayout heap ((heapSizes heap).heapMeta heap.vaddr.toNat) ∧
      GAllocatorHeapMeta.load
          (((heapSizes heap).heapMeta heap.vaddr.toNat).store heap.vaddr.toNat mem)
          heap.vaddr.toNat = (heapSizes heap).heapMeta heap.vaddr.toNat := by
  have fits := heap.fits
  rcases heapSizes_sizes some_ whole with ⟨total, heapsize, poolsize, divided⟩
  have parts := divided.fits
  have positive := divided.some_
  have page : 4096 ≤ heap.pagespan.toNat * pageSize := by
    unfold pageSize
    omega
  have hiStart : (heapSizes heap).hiPool = heap.vaddr.toNat + 128 + (heapSizes heap).loBitmapSize +
      (heapSizes heap).midBitmapSize + (heapSizes heap).hiBitmapSize := rfl
  have midStart : (heapSizes heap).midPool = (heapSizes heap).hiPool +
      (heapSizes heap).poolsize / 2 / 128 * 128 := rfl
  have loStart : (heapSizes heap).loPool = (heapSizes heap).midPool +
      (heapSizes heap).poolsize / 4 / 64 * 64 := rfl
  rcases @alignUp_bounds (heapSizes heap).hiPool 7 (by decide) (by omega) with
    ⟨hiPool, hiPlace, hiLow, hiHigh, hiWhole⟩
  rcases @alignUp_bounds (heapSizes heap).midPool 6 (by decide) (by omega) with
    ⟨midPool, midPlace, midLow, midHigh, midWhole⟩
  rcases @alignUp_bounds (heapSizes heap).loPool 5 (by decide) (by omega) with
    ⟨loPool, loPlace, loLow, loHigh, loWhole⟩
  have hiMoved : (heapSizes heap).alignedHiPool = hiPool := hiPlace
  have midMoved : (heapSizes heap).alignedMidPool = midPool := midPlace
  have loMoved : (heapSizes heap).alignedLoPool = loPool := loPlace
  rw [← hiMoved] at hiLow hiHigh hiWhole
  rw [← midMoved] at midLow midHigh midWhole
  rw [← loMoved] at loLow loHigh loWhole
  have hiRest := u32Sub_of_le (moved_le positive.2.2
    ((heapSizes heap).alignedHiPool ≠ (heapSizes heap).hiPool)) (by omega)
  have midRest := u32Sub_of_le (moved_le positive.2.1
    ((heapSizes heap).alignedMidPool ≠ (heapSizes heap).midPool)) (by omega)
  have loRest := u32Sub_of_le (moved_le positive.1
    ((heapSizes heap).alignedLoPool ≠ (heapSizes heap).loPool)) (by omega)
  have hiEnd := shrunk_pool positive.2.2 ⟨hiLow, hiHigh⟩ hiRest.symm
  have midEnd := shrunk_pool positive.2.1 ⟨midLow, midHigh⟩ midRest.symm
  have loEnd := shrunk_pool positive.1 ⟨loLow, loHigh⟩ loRest.symm
  have layout : HeapLayout heap ((heapSizes heap).heapMeta heap.vaddr.toNat) :=
    preparedMeta_layout divided (by omega) hiLow hiEnd midLow midEnd loLow loEnd
      ⟨loWhole, midWhole, hiWhole⟩
  refine ⟨?_, layout, preparedMeta_load (by omega) layout⟩
  have bytes : heap.pagespan.toNat * pageSize % 2 ^ 32 = heap.pagespan.toNat * pageSize := total
  apply gallocatorInitHeap_eq (by rw [bytes, heapsize]) (by omega) rfl rfl rfl
    (congrArg (· / 4 / 32) poolsize).symm (congrArg (· / 4 / 64) poolsize).symm
    (congrArg (· / 2 / 128) poolsize).symm rfl rfl rfl hiRest.symm midRest.symm loRest.symm
  exact ⟨Nat.mod_eq_zero_of_dvd loWhole, Nat.mod_eq_zero_of_dvd midWhole,
    Nat.mod_eq_zero_of_dvd hiWhole⟩

/-- The metadata with its padding, the bitmaps and the pools, each from its start to its end. -/
def heapBlocks (heap : Heap) (m : GAllocatorHeapMeta) : List (Nat × Nat) :=
  [(heap.vaddr.toNat, heap.vaddr.toNat + 128),
    (m.loBitmap, m.loBitmap + m.loBitmapSize), (m.midBitmap, m.midBitmap + m.midBitmapSize),
    (m.hiBitmap, m.hiBitmap + m.hiBitmapSize), (m.hiPool, m.hiPool + m.hiPoolchunks * 128),
    (m.midPool, m.midPool + m.midPoolchunks * 64), (m.loPool, m.loPool + m.loPoolchunks * 32)]

theorem heapBlocks_laid_out {start lo mid hi loPool loChunks midPool midChunks hiPool hiChunks : Nat}
    (at_ : heap.vaddr.toNat = start)
    (layout : HeapLayout heap (preparedMeta start lo mid hi loPool loChunks midPool midChunks hiPool
      hiChunks)) :
    (heapBlocks heap (preparedMeta start lo mid hi loPool loChunks midPool midChunks hiPool
        hiChunks)).Pairwise (fun b c => b.2 ≤ c.1) ∧
      ∀ b ∈ heapBlocks heap (preparedMeta start lo mid hi loPool loChunks midPool midChunks hiPool
          hiChunks),
        heap.vaddr.toNat ≤ b.1 ∧ b.2 ≤ heap.vaddr.toNat + heap.pagespan.toNat * pageSize := by
  obtain ⟨-, h1, h2, h3, h4, h5, h6, h7, -⟩ := layout
  unfold preparedMeta at *
  unfold heapBlocks
  dsimp only at *
  simp only [List.pairwise_cons, List.forall_mem_cons, List.not_mem_nil, false_imp_iff,
    implies_true, List.Pairwise.nil, and_true]
  omega

/-- A heap that is the whole address space has a size of 0 bytes. -/
theorem gallocatorInitHeap_whole (whole : heap.pagespan.toNat = 2 ^ 20) (mem : Nat → Byte) :
    gallocatorInitHeap heap mem = .ok (-12, mem) := by
  unfold gallocatorInitHeap
  rw [whole]
  rfl

/-- Every heap short of the whole address space is divided into disjoint parts. -/
theorem gallocatorInitHeap_divides (heap : Heap) (mem : Nat → Byte)
    (some_ : 0 < heap.pagespan.toNat) :
    (heap.pagespan.toNat < 2 ^ 20 →
      ∃ m mem', gallocatorInitHeap heap mem = .ok (0, mem') ∧
        GAllocatorHeapMeta.load mem' heap.vaddr.toNat = m ∧
        m = (heapSizes heap).heapMeta heap.vaddr.toNat ∧
        (heapBlocks heap m).Pairwise (fun b c => b.2 ≤ c.1) ∧
        (∀ b ∈ heapBlocks heap m, heap.vaddr.toNat ≤ b.1 ∧
          b.2 ≤ heap.vaddr.toNat + heap.pagespan.toNat * pageSize) ∧
        (∀ c p, m.pool c = some p → c ∣ p.poolstart ∧ p.poolchunks ≤ 8 * p.bitmapsize) ∧
        ∀ d ∈ (heapSizes heap).subtractions, d.2 ≤ d.1) ∧
    (heap.pagespan.toNat = 2 ^ 20 → gallocatorInitHeap heap mem = .ok (-12, mem)) := by
  refine ⟨fun part => ?_, fun whole => gallocatorInitHeap_whole whole mem⟩
  rcases gallocatorInitHeap_layout some_ part mem with ⟨call, layout, load⟩
  rcases heapSizes_sizes some_ part with ⟨total, heapsize, poolsize, divided⟩
  have parts := divided.fits
  have positive := divided.some_
  have blocks := heapBlocks_laid_out rfl layout
  refine ⟨_, _, call, load, rfl, blocks.1, blocks.2, fun c p here => ?_, ?_⟩
  · have placed := layout.placed c p here
    rw [← pool_chunksize here]
    exact ⟨placed.aligned, placed.covered⟩
  · unfold HeapSizes.subtractions
    simp only [List.forall_mem_cons, List.not_mem_nil, false_imp_iff, implies_true, and_true]
    refine ⟨?_, by omega, moved_le positive.2.2 _, moved_le positive.2.1 _, moved_le positive.1 _⟩
    unfold pageSize at total
    omega

def onePage : Heap := ⟨0xc0100000#32, 1#32, by decide⟩

theorem gallocatorInitHeap_divides_page :
    ∃ m mem', gallocatorInitHeap onePage (fun _ => 0) = .ok (0, mem') ∧
      GAllocatorHeapMeta.load mem' onePage.vaddr.toNat = m ∧
      (heapBlocks onePage m).Pairwise (fun b c => b.2 ≤ c.1) := by
  rcases (gallocatorInitHeap_divides onePage (fun _ => 0) (by decide)).1 (by decide) with
    ⟨m, mem', call, load, -, blocks, -⟩
  exact ⟨m, mem', call, load, blocks⟩

def wholeAddressSpace : Heap := ⟨0#32, 1048576#32, Nat.le_refl (2 ^ 32)⟩

theorem gallocatorInitHeap_refuses :
    wholeAddressSpace.vaddr.toNat % pageSize = 0 ∧ 0 < wholeAddressSpace.pagespan.toNat ∧
      ¬ ∃ mem', gallocatorInitHeap wholeAddressSpace (fun _ => 0) = .ok (0, mem') := by
  refine ⟨rfl, Nat.succ_pos _, ?_⟩
  rintro ⟨mem', call⟩
  have refused := @gallocatorInitHeap_whole wholeAddressSpace rfl fun _ => 0
  have answers := Prod.mk.inj (Except.ok.inj (call.symm.trans refused))
  exact absurd answers.1 (by decide)

end Init

end Dxgmx
